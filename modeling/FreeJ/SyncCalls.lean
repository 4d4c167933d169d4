import Mathlib.Data.Fintype.Basic
import Mathlib.Logic.Relation
import FreeJ.ClosureQueue
import FreeJ.Transition

/-!
# Synchronous Calls through the Threaded Closure Queue

The documented clients of `ThreadedClosureQueue`: producers that add plain closures, and
producers that make a synchronous call, `c = NewSyncClosure(...); queue.add_job(c);
c->wait(); delete c`. A synchronized closure has a mutex of its own, which is locked by its
constructor and let go of inside `wait`; the worker takes it at the end of `run` to signal.
A job's body may itself call `add_job` on the queue. There is no destructor here, so
`running_` stays true.

The worker runs jobs while it holds the queue's `cond_mutex_`, and `add_job` takes that
mutex after the job is in the queue. `Safe` says when that closes no cycle: the worker takes
a job only if its body adds none and, when it is synchronized, its creator is past locking
`cond_mutex_` in `signal_`.

A destroyed mutex is one that nobody holds.

## Main results

* `no_deadlock`: in every run whose steps meet `Safe` no threads wait for each other's
  mutexes in a cycle, and some thread with work left has a step.
* `deadlocks`: the cycles that the condition excludes.
-/

namespace FreeJ

open Function (update)
open Mutex Transition

namespace SyncCalls

/-- The thread that runs `jobs_loop_`, and the callers of `add_job`. -/
inductive Thread (P : Type*)
  | worker
  | producer (p : P)
  deriving DecidableEq

/-- What the closures are: whether one is synchronized, and which closures its body hands to
`add_job` on the queue that runs it. -/
structure Clients (J : Type*) where
  is_synchronized : J → Bool
  adds : J → List J

/-- Positions in `jobs_loop_`. While a job is run the worker is in its body, adds jobs from
there, and then, for a synchronized closure, is in the rest of `Closure::run` (`notify`). -/
inductive Worker (J : Type*)
  | start
  | test
  | jobs (pc : DoJobs J)
  | body (job : J) (rest : List J)
  | bodyAdd (job : J) (rest : List J) (added : J) (pc : AddJob)
  | bodySignal (job : J) (rest : List J) (pc : Signal)
  | notify (job : J) (pc : Signal)
  | wait
  | waiting
  | relock
  deriving DecidableEq

/-- Positions of a producer with its closure: in `add_job`, and for a synchronous call in
`wait` and in the destructor of the closure. -/
inductive Caller (J : Type*)
  | idle
  | add (job : J) (pc : AddJob)
  | signal (job : J) (pc : Signal)
  | wait (job : J)
  | waiting (job : J)
  | relock (job : J)
  | delete (job : J)
  deriving DecidableEq

/-- The queue, the mutexes and the threads; `issued` records the closures created. -/
structure State (P J : Type*) where
  queue : ClosureQueue (Thread P) J
  /-- who holds the queue's `cond_mutex_` -/
  cond_mutex_ : Option (Thread P)
  /-- who holds the `cond_mutex_` of each closure -/
  mutex : J → Option (Thread P)
  worker : Worker J
  producers : P → Caller J
  issued : List J

variable {P J : Type*}

/-- The queue just constructed. -/
def State.fresh : State P J where
  queue := ClosureQueue.empty
  cond_mutex_ := none
  mutex _ := none
  worker := .start
  producers _ := .idle
  issued := []

/-- What a broadcast on the queue's `cond_` does to the worker. -/
def Worker.wake : Worker J → Worker J
  | .waiting => .relock
  | pc => pc

/-- `ThreadedClosureQueue::signal_`, step by step, as thread `t`. -/
def State.signal_ (s : State P J) (t : Thread P) : Signal → Option (State P J × Option Signal)
  | .lock => (lock s.cond_mutex_ t).map fun m => ({ s with cond_mutex_ := m }, some .broadcast)
  | .broadcast => some ({ s with worker := s.worker.wake }, some .unlock)
  | .unlock => some ({ s with cond_mutex_ := none }, none)

section Step

variable [DecidableEq J]

/-- What a broadcast on the `cond_` of closure `job` does to a producer. -/
def Caller.wake (job : J) : Caller J → Caller J
  | .waiting j => if j = job then .relock j else .waiting j
  | pc => pc

/-- `Closure::run` of a synchronized closure, after the body: step by step. -/
def State.notify (s : State P J) (job : J) : Signal → Option (State P J × Option Signal)
  | .lock =>
    (lock (s.mutex job) .worker).map fun m =>
      ({ s with mutex := update s.mutex job m }, some .broadcast)
  | .broadcast =>
    some ({ s with producers := fun p => (s.producers p).wake job }, some .unlock)
  | .unlock => some ({ s with mutex := update s.mutex job none }, none)

/-- `jobs_loop_`, step by step. -/
def State.jobs_loop_ (K : Clients J) (s : State P J) : Option (State P J) :=
  match s.worker with
  | .start | .relock =>
    (lock s.cond_mutex_ .worker).map fun m => { s with cond_mutex_ := m, worker := .test }
  | .test => some { s with worker := .jobs .lock }
  | .jobs (.run job) => some { s with worker := .body job (K.adds job) }
  | .jobs pc => (s.queue.do_jobs .worker pc).map fun r =>
      { s with queue := r.1, worker := r.2.elim .wait .jobs }
  | .body job [] =>
    some { s with
      worker := if K.is_synchronized job then .notify job .lock else .jobs (.delete job) }
  | .body job (added :: rest) => some { s with worker := .bodyAdd job rest added .lock }
  | .bodyAdd job rest added pc => (s.queue.add_job .worker added pc).map fun r =>
      { s with
        queue := r.1
        worker := r.2.elim (.bodySignal job rest .lock) (.bodyAdd job rest added) }
  | .bodySignal job rest pc => (s.signal_ .worker pc).map fun r =>
      { r.1 with worker := r.2.elim (.body job rest) (.bodySignal job rest) }
  | .notify job pc => (s.notify job pc).map fun r =>
      { r.1 with worker := r.2.elim (.jobs .lock) (.notify job) }
  | .wait => some { s with cond_mutex_ := none, worker := .waiting }
  | .waiting => none

variable [DecidableEq P]

/-- A producer, step by step: `add_job`, then `wait` and `delete` if the closure is
synchronized. `pthread_cond_wait` lets go of the closure's mutex, and so does `~Closure`. -/
def State.call (K : Clients J) (s : State P J) (p : P) : Option (State P J) :=
  match s.producers p with
  | .idle => none
  | .add job pc => (s.queue.add_job (.producer p) job pc).map fun r =>
      { s with
        queue := r.1
        producers := update s.producers p (r.2.elim (.signal job .lock) (.add job)) }
  | .signal job pc => (s.signal_ (.producer p) pc).map fun r =>
      { r.1 with
        producers := update s.producers p
          (r.2.elim (if K.is_synchronized job then .wait job else .idle) (.signal job)) }
  | .wait job =>
    some { s with
      mutex := update s.mutex job none
      producers := update s.producers p (.waiting job) }
  | .waiting _ => none
  | .relock job => (lock (s.mutex job) (.producer p)).map fun m =>
      { s with
        mutex := update s.mutex job m
        producers := update s.producers p (.delete job) }
  | .delete job =>
    some { s with
      mutex := update s.mutex job none
      producers := update s.producers p .idle }

/-- The next step of a thread; `none` when it is blocked or has nothing to do. -/
def State.run (K : Clients J) (s : State P J) : Thread P → Option (State P J)
  | .worker => s.jobs_loop_ K
  | .producer p => s.call K p

/-- What may happen next: a step of a thread, a producer that creates a closure and calls
`add_job` with it, and a thread that wakes up from its wait without a reason. -/
inductive Act (P J : Type*)
  | run (t : Thread P)
  | create (p : P) (job : J)
  | wakeup (t : Thread P)

/-- One step; the constructor of a synchronized closure locks its mutex. -/
def State.step (K : Clients J) (s : State P J) : Act P J → Option (State P J)
  | .run t => s.run K t
  | .create p job =>
    if s.producers p = .idle then
      some { s with
        mutex := if K.is_synchronized job then update s.mutex job (some (.producer p)) else s.mutex
        producers := update s.producers p (.add job .lock)
        issued := job :: s.issued }
    else none
  | .wakeup .worker => if s.worker = .waiting then some { s with worker := .relock } else none
  | .wakeup (.producer p) =>
    match s.producers p with
    | .waiting job => some { s with producers := update s.producers p (.relock job) }
    | _ => none

/-- The queue with its clients, in any interleaving. -/
def system (P : Type*) [DecidableEq P] (K : Clients J) : System (State P J) (Act P J) :=
  System.ofFun (fun s => s = State.fresh) (State.step K)

end Step

/-- A closure is created once. -/
def Created (s : State P J) : Act P J → Prop
  | .create _ job => job ∉ s.issued
  | _ => True

/-! ### Who waits for whom -/

/-- The holder of the mutex that a thread is about to lock. -/
def State.wants (s : State P J) : Thread P → Option (Thread P)
  | .worker =>
    match s.worker with
    | .start | .relock | .bodySignal _ _ .lock => s.cond_mutex_
    | .jobs .lock | .bodyAdd _ _ _ .lock => s.queue.job_queue_mutex_
    | .notify job .lock => s.mutex job
    | _ => none
  | .producer p =>
    match s.producers p with
    | .add _ .lock => s.queue.job_queue_mutex_
    | .signal _ .lock => s.cond_mutex_
    | .relock job => s.mutex job
    | _ => none

/-- Thread `t` is blocked on a mutex that `t'` holds. -/
def State.WaitsFor (s : State P J) (t t' : Thread P) : Prop := s.wants t = some t'

/-- The creator of a closure has not yet locked `cond_mutex_` to signal that it added it. -/
def Caller.Early (job : J) : Caller J → Prop
  | .add j _ | .signal j .lock => j = job
  | _ => False

/-- The job that the next step of the worker takes from the queue. -/
def State.taken (s : State P J) : Option J :=
  if s.worker matches .jobs .take then s.queue.job_queue_.head? else none

/-- The worker takes a job only if its body adds none and, when it is synchronized, its
creator is past locking `cond_mutex_`. -/
def Safe (K : Clients J) (s : State P J) : Act P J → Prop
  | .run .worker => ∀ job ∈ s.taken, K.adds job = [] ∧
      (K.is_synchronized job = true → ∀ p, ¬ (s.producers p).Early job)
  | _ => True

/-! ### The invariant -/

/-- The worker holds the queue's `cond_mutex_`. -/
def Worker.HoldsCond : Worker J → Prop
  | .start | .waiting | .relock => False
  | _ => True

/-- The worker holds the mutex of the queue. -/
def Worker.HoldsQueue : Worker J → Prop
  | .jobs pc => pc.holds
  | .bodyAdd _ _ _ pc => pc.holds
  | _ => False

/-- The worker holds the mutex of a closure. -/
def Worker.HoldsClosure (job : J) : Worker J → Prop
  | .notify j .broadcast | .notify j .unlock => j = job
  | _ => False

/-- The job that the worker has taken from the queue and is not done with. -/
def Worker.hand : Worker J → Option J
  | .jobs (.unlock job) => job
  | .jobs (.run job) | .body job _ | .bodyAdd job _ _ _ | .bodySignal job _ _ | .notify job _ =>
    some job
  | _ => none

/-- The worker has a synchronized closure in hand and is yet to broadcast. -/
def Worker.Carries (job : J) : Worker J → Prop
  | .jobs (.unlock j) => j = some job
  | .jobs (.run j) | .body j _ | .notify j .lock | .notify j .broadcast => j = job
  | _ => False

/-- The worker adds no job itself, and notifies for synchronized closures only. -/
def Worker.Plain (K : Clients J) : Worker J → Prop
  | .body _ rest => rest = []
  | .bodyAdd _ _ _ _ | .bodySignal _ _ _ => False
  | .notify job _ => K.is_synchronized job = true
  | _ => True

/-- The worker found the queue empty and goes to wait or waits. -/
def Worker.Settled : Worker J → Prop
  | .jobs (.unlock none) | .wait | .waiting => True
  | _ => False

/-- The closure of a producer. -/
def Caller.job : Caller J → Option J
  | .idle => none
  | .add job _ | .signal job _ | .wait job | .waiting job | .relock job | .delete job => some job

/-- A producer holds the queue's `cond_mutex_`. -/
def Caller.HoldsCond : Caller J → Prop
  | .signal _ pc => pc.Holds
  | _ => False

/-- A producer holds the mutex of the queue. -/
def Caller.HoldsQueue : Caller J → Prop
  | .add _ pc => pc.holds
  | _ => False

/-- A producer holds the mutex of its closure: from its construction on, except while it
waits. -/
def Caller.HoldsClosure (K : Clients J) (job : J) : Caller J → Prop
  | .add j _ | .signal j _ | .wait j | .delete j => j = job ∧ K.is_synchronized j = true
  | _ => False

/-- A producer has pushed its job and not yet broadcast. -/
def Caller.Owes : Caller J → Prop
  | .add _ .unlock | .signal _ .lock | .signal _ .broadcast => True
  | _ => False

/-- A producer has pushed its job and has not been woken up from its wait. -/
def Caller.Expects (job : J) : Caller J → Prop
  | .add j .unlock | .signal j _ | .wait j | .waiting j => j = job
  | _ => False

/-- Only synchronized closures are waited for. -/
def Caller.Plain (K : Clients J) : Caller J → Prop
  | .wait job | .waiting job | .relock job | .delete job => K.is_synchronized job = true
  | _ => True

/-- A thread is inside a critical section of the queue's `cond_mutex_`. -/
def State.InCond (s : State P J) : Thread P → Prop
  | .worker => s.worker.HoldsCond
  | .producer p => (s.producers p).HoldsCond

/-- A thread is inside a critical section of the queue's `job_queue_mutex_`. -/
def State.InQueue (s : State P J) : Thread P → Prop
  | .worker => s.worker.HoldsQueue
  | .producer p => (s.producers p).HoldsQueue

/-- A thread is inside a critical section of the mutex of a closure. -/
def State.InClosure (K : Clients J) (job : J) (s : State P J) : Thread P → Prop
  | .worker => s.worker.HoldsClosure job
  | .producer p => (s.producers p).HoldsClosure K job

/-- The invariant of the runs whose steps are `Safe`. -/
structure Inv (K : Clients J) (s : State P J) : Prop where
  cond : Guards s.cond_mutex_ s.InCond
  lockQueue : Guards s.queue.job_queue_mutex_ s.InQueue
  closure : ∀ job, Guards (s.mutex job) (s.InClosure K job)
  /-- what the worker took it took safely -/
  hand : ∀ job, s.worker.hand = some job → job ∈ s.issued ∧ K.adds job = [] ∧
    (K.is_synchronized job = true → ∀ p, ¬ (s.producers p).Early job)
  plain : s.worker.Plain K
  callers : ∀ p, (s.producers p).Plain K
  /-- closures are created once -/
  issued : ∀ job ∈ s.queue.job_queue_, job ∈ s.issued
  created : ∀ p job, (s.producers p).job = some job →
    job ∈ s.issued ∧ ∀ p', (s.producers p').job = some job → p' = p
  /-- nobody waits while a job is in the queue, unless a producer is about to broadcast -/
  awake : s.worker.Settled → s.queue.job_queue_ ≠ [] → ∃ p, (s.producers p).Owes
  /-- the closure that a producer waits for is in the queue or in the worker's hands -/
  expects : ∀ p job, (s.producers p).Expects job → K.is_synchronized job = true →
    job ∈ s.queue.job_queue_ ∨ s.worker.Carries job

theorem Inv.fresh {K : Clients J} : Inv K (State.fresh : State P J) where
  cond t := by cases t <;> simp [State.fresh, State.InCond, Worker.HoldsCond, Caller.HoldsCond]
  lockQueue t := by
    cases t <;> simp [State.fresh, State.InQueue, Worker.HoldsQueue, Caller.HoldsQueue,
      ClosureQueue.empty]
  closure job t := by
    cases t <;> simp [State.fresh, State.InClosure, Worker.HoldsClosure, Caller.HoldsClosure]
  hand _ h := nomatch h
  plain := trivial
  callers _ := trivial
  issued _ h := nomatch h
  created _ _ h := nomatch h
  awake h := h.elim
  expects _ _ h := h.elim

/-! ### The worker keeps the invariant -/

section Worker

variable {K : Clients J} {s s' : State P J} {q : ClosureQueue (Thread P) J}
  {m : Option (Thread P)} {n : J → Option (Thread P)} {w : Worker J}

/-- A step of the worker moves nobody else into or out of a critical section. -/
theorem State.in_of_ne_worker (t : Thread P) (ht : t ≠ .worker) :
    ({ s with queue := q, cond_mutex_ := m, mutex := n, worker := w }.InCond t ↔ s.InCond t) ∧
    ({ s with queue := q, cond_mutex_ := m, mutex := n, worker := w }.InQueue t ↔
      s.InQueue t) ∧
    ∀ job, ({ s with queue := q, cond_mutex_ := m, mutex := n, worker := w }.InClosure K job t ↔
      s.InClosure K job t) := by
  cases t with
  | worker => exact absurd rfl ht
  | producer p => exact ⟨Iff.rfl, Iff.rfl, fun _ => Iff.rfl⟩

/-- The worker goes on with the jobs it has, leaving the jobs of the queue alone. -/
theorem Inv.goOn (h : Inv K s) (hq : q.job_queue_ = s.queue.job_queue_)
    (hcond : Guards m
      { s with queue := q, cond_mutex_ := m, mutex := n, worker := w }.InCond)
    (hlock : Guards q.job_queue_mutex_
      { s with queue := q, cond_mutex_ := m, mutex := n, worker := w }.InQueue)
    (hclosure : ∀ job, Guards (n job)
      ({ s with queue := q, cond_mutex_ := m, mutex := n, worker := w }.InClosure K job))
    (hhand : ∀ job, w.hand = some job → s.worker.hand = some job) (hplain : w.Plain K)
    (hsettled : w.Settled → s.worker.Settled ∨ q.job_queue_ = [])
    (hcarries : ∀ job, s.worker.Carries job → K.is_synchronized job = true → w.Carries job) :
    Inv K { s with queue := q, cond_mutex_ := m, mutex := n, worker := w } where
  cond := hcond
  lockQueue := hlock
  closure := hclosure
  hand job hj := h.hand job (hhand job hj)
  plain := hplain
  callers := h.callers
  issued job hj := h.issued job (hq ▸ hj)
  created := h.created
  awake hset hne := by
    rcases hsettled hset with hset | hnil
    · exact h.awake hset (hq ▸ hne)
    · exact absurd hnil hne
  expects p job hp hsync := by
    rcases h.expects p job hp hsync with hmem | hcarry
    · exact Or.inl (hq ▸ hmem)
    · exact Or.inr (hcarries job hcarry hsync)

/-- The worker stays inside or outside the critical sections of `cond_mutex_`. -/
theorem Inv.keepCond (h : Inv K s) (hw : w.HoldsCond ↔ s.worker.HoldsCond) :
    Guards s.cond_mutex_
      { s with queue := q, cond_mutex_ := m, mutex := n, worker := w }.InCond :=
  h.cond.keep (fun t ht => (State.in_of_ne_worker (K := K) t ht).1) hw

/-- The worker stays inside or outside the critical sections of the queue. -/
theorem Inv.keepQueue (h : Inv K s) (hw : w.HoldsQueue ↔ s.worker.HoldsQueue) :
    Guards s.queue.job_queue_mutex_
      { s with queue := q, cond_mutex_ := m, mutex := n, worker := w }.InQueue :=
  h.lockQueue.keep (fun t ht => (State.in_of_ne_worker (K := K) t ht).2.1) hw

/-- The worker stays inside or outside the critical sections of the closures. -/
theorem Inv.keepClosure (h : Inv K s)
    (hw : ∀ job, w.HoldsClosure job ↔ s.worker.HoldsClosure job) (job : J) :
    Guards (s.mutex job)
      ({ s with queue := q, cond_mutex_ := m, mutex := n, worker := w }.InClosure K job) :=
  (h.closure job).keep (fun t ht => (State.in_of_ne_worker (K := K) t ht).2.2 job) (hw job)

/-- The worker keeps the invariant inside `do_jobs`, between the bodies of the jobs. -/
theorem Inv.do_jobs {pc : DoJobs J} {pc' : Option (DoJobs J)} (h : Inv K s)
    (hw : s.worker = .jobs pc) (hrun : ∀ job, pc ≠ .run job) (hsafe : Safe K s (.run .worker))
    (hq : s.queue.do_jobs .worker pc = some (q, pc')) :
    Inv K { s with queue := q, worker := pc'.elim .wait .jobs } := by
  have hcond : Guards s.cond_mutex_
      { s with queue := q, worker := pc'.elim .wait .jobs }.InCond :=
    h.keepCond (by cases pc' <;> simp [hw, Worker.HoldsCond])
  have hclosure := fun job => h.keepClosure (q := q) (m := s.cond_mutex_) (n := s.mutex)
    (w := pc'.elim .wait .jobs) (by cases pc' <;> simp [hw, Worker.HoldsClosure]) job
  cases pc with
  | lock =>
      obtain ⟨m, hm, heq⟩ := Option.map_eq_some_iff.mp hq
      obtain ⟨rfl, rfl⟩ := Prod.mk.inj heq
      obtain ⟨hfree, rfl⟩ := lock_eq_some.mp hm
      refine h.goOn rfl hcond ?_ hclosure (by rintro _ ⟨⟩) trivial (by rintro ⟨⟩) ?_
      · exact (hfree ▸ h.lockQueue).lock (fun t ht => (State.in_of_ne_worker (K := K) t ht).2.1) rfl
      · simp [hw, Worker.Carries]
  | take =>
      rcases hjobs : s.queue.job_queue_ with _ | ⟨job, jobs⟩ <;>
        simp only [ClosureQueue.do_jobs, hjobs] at hq <;>
        obtain ⟨rfl, rfl⟩ := Prod.mk.inj (Option.some.inj hq)
      · exact h.goOn rfl hcond (h.keepQueue (by simp [hw, Worker.HoldsQueue, DoJobs.holds]))
          hclosure (by rintro _ ⟨⟩) trivial (fun _ => Or.inr hjobs) (by simp [hw, Worker.Carries])
      · obtain ⟨hadds, hearly⟩ := hsafe job (by simp [State.taken, hw, hjobs])
        exact { h with
          cond := hcond
          lockQueue := h.keepQueue (by simp [hw, Worker.HoldsQueue, DoJobs.holds])
          closure := hclosure
          hand := by
            intro j hj
            obtain rfl : job = j := Option.some.inj hj
            exact ⟨h.issued job (by simp [hjobs]), hadds, hearly⟩
          plain := trivial
          issued := fun j hj => h.issued j (by simp [hjobs, show j ∈ jobs from hj])
          awake := by rintro ⟨⟩
          expects := by
            intro p j hp hsync
            rcases h.expects p j hp hsync with hmem | hcarry
            · rw [hjobs, List.mem_cons] at hmem
              rcases hmem with rfl | hmem
              · exact Or.inr rfl
              · exact Or.inl hmem
            · simp [hw, Worker.Carries] at hcarry }
  | unlock job =>
      obtain ⟨rfl, rfl⟩ := Prod.mk.inj (Option.some.inj hq)
      refine h.goOn rfl hcond ?_ hclosure ?_ ?_ ?_ ?_
      · exact h.lockQueue.unlock (t := .worker)
          (fun t ht => (State.in_of_ne_worker (K := K) t ht).2.1)
          (by simp [State.InQueue, hw, Worker.HoldsQueue, DoJobs.holds])
          (by cases job <;> simp [State.InQueue, Worker.HoldsQueue, DoJobs.holds])
      · cases job <;> simp [hw, Worker.hand]
      · cases job <;> trivial
      · cases job <;> simp [hw, Worker.Settled]
      · cases job <;> simp [hw, Worker.Carries]
  | run job => exact absurd rfl (hrun job)
  | delete job =>
      obtain ⟨rfl, rfl⟩ := Prod.mk.inj (Option.some.inj hq)
      exact h.goOn rfl hcond (h.keepQueue (by simp [hw, Worker.HoldsQueue, DoJobs.holds]))
        hclosure (by rintro _ ⟨⟩) trivial (by rintro ⟨⟩) (by simp [hw, Worker.Carries])

/-- Nobody holds the mutex of a closure that was not created yet. -/
theorem Inv.mutex_free {job : J} (h : Inv K s) (hjob : job ∉ s.issued) : s.mutex job = none := by
  by_contra hne
  obtain ⟨t, ht⟩ := Option.ne_none_iff_exists'.mp hne
  have hin := (h.closure job t).mpr ht
  cases t with
  | worker =>
      refine hjob (h.hand job ?_).1
      cases hw : s.worker <;> simp only [State.InClosure, hw, Worker.HoldsClosure] at hin
      rename_i j pc
      cases pc <;> simp_all [Worker.hand]
  | producer p =>
      refine hjob (h.created p job ?_).1
      cases hp : s.producers p <;> simp_all [State.InClosure, Caller.HoldsClosure, Caller.job]

/-- The worker wakes up for no reason. -/
theorem Inv.wakeup (h : Inv K s) (hw : s.worker = .waiting) :
    Inv K { s with worker := .relock } := by
  refine h.goOn rfl (h.keepCond ?_) (h.keepQueue ?_) (h.keepClosure ?_)
    (by rintro _ ⟨⟩) trivial (by rintro ⟨⟩) ?_ <;>
  simp [hw, Worker.HoldsCond, Worker.HoldsQueue, Worker.HoldsClosure, Worker.Carries]

variable [DecidableEq J]

/-- A broadcast on the condition of closure `job` wakes up who waits for it and nobody
else. -/
theorem Caller.wake_eq (job : J) (pc : Caller J) :
    pc.wake job = pc ∨ pc = .waiting job ∧ pc.wake job = .relock job := by
  cases pc with
  | waiting j => by_cases hj : j = job <;> simp [Caller.wake, hj]
  | _ => exact Or.inl rfl

/-- A broadcast moves nobody into or out of a critical section. -/
theorem Caller.wake_facts (K : Clients J) (job j : J) (pc : Caller J) :
    ((pc.wake job).HoldsCond ↔ pc.HoldsCond) ∧ ((pc.wake job).HoldsQueue ↔ pc.HoldsQueue) ∧
      ((pc.wake job).HoldsClosure K j ↔ pc.HoldsClosure K j) ∧
      ((pc.wake job).Early j ↔ pc.Early j) ∧ ((pc.wake job).Plain K ↔ pc.Plain K) ∧
      (pc.wake job).job = pc.job ∧ ((pc.wake job).Owes ↔ pc.Owes) := by
  rcases pc.wake_eq job with heq | ⟨rfl, heq⟩ <;> rw [heq]
  · simp
  · simp [HoldsCond, HoldsQueue, HoldsClosure, Early, Plain, Caller.job, Owes]

/-- A producer that still expects the broadcast on its closure after it happened was not
waiting for it, and holds the closure's mutex. -/
theorem Caller.Expects.of_wake {K : Clients J} {job j : J} {pc : Caller J}
    (h : (pc.wake job).Expects j) :
    pc.Expects j ∧ (j = job → K.is_synchronized job = true → pc.HoldsClosure K job) := by
  cases pc with
  | waiting j' =>
      by_cases hj : j' = job
      · simp [Caller.wake, hj, Expects] at h
      · simp only [Caller.wake, hj, if_false, Expects] at h
        exact ⟨h, fun hjob => absurd (h.trans hjob) hj⟩
  | idle => exact h.elim
  | add j' pc => cases pc <;> first | exact h.elim | exact ⟨h, fun hj hs => ⟨h.trans hj, by
      rwa [show j' = job from h.trans hj]⟩⟩
  | signal j' pc => exact ⟨h, fun hj hs => ⟨h.trans hj, by rwa [show j' = job from h.trans hj]⟩⟩
  | wait j' => exact ⟨h, fun hj hs => ⟨h.trans hj, by rwa [show j' = job from h.trans hj]⟩⟩
  | relock j' => exact h.elim
  | delete j' => exact h.elim

/-- The worker keeps the invariant while it notifies the creator of a synchronized
closure. -/
theorem Inv.notify {job : J} {pc : Signal} {pc' : Option Signal} (h : Inv K s)
    (hw : s.worker = .notify job pc) (hs : s.notify job pc = some (s', pc')) :
    Inv K { s' with worker := pc'.elim (.jobs .lock) (.notify job) } := by
  have hplain : K.is_synchronized job = true := by
    have hp := h.plain
    rwa [hw] at hp
  cases pc with
  | lock =>
      obtain ⟨m, hm, heq⟩ := Option.map_eq_some_iff.mp hs
      obtain ⟨rfl, rfl⟩ := Prod.mk.inj heq
      obtain ⟨hfree, rfl⟩ := lock_eq_some.mp hm
      refine h.goOn rfl (h.keepCond ?_) (h.keepQueue ?_) (Guards.lock_at h.closure hfree
        (fun j t ht => (State.in_of_ne_worker t ht).2.2 j) rfl fun j hj => ?_) ?_ hplain
        (by rintro ⟨⟩) ?_
      · simp [hw, Worker.HoldsCond]
      · simp [hw, Worker.HoldsQueue]
      · simp [State.InClosure, hw, Worker.HoldsClosure, Ne.symm hj]
      · simp [hw, Worker.hand]
      · simp [hw, Worker.Carries]
  | broadcast =>
      obtain ⟨rfl, rfl⟩ := Prod.mk.inj (Option.some.inj hs)
      have hwake := fun p j => (s.producers p).wake_facts K job j
      have hin : s.InClosure K job .worker := by simp [State.InClosure, hw, Worker.HoldsClosure]
      exact {
        cond := by
          intro t
          cases t with
          | worker => simpa [State.InCond, hw, Worker.HoldsCond] using h.cond .worker
          | producer p => exact (hwake p job).1.trans (h.cond (.producer p))
        lockQueue := by
          intro t
          cases t with
          | worker => simpa [State.InQueue, hw, Worker.HoldsQueue] using h.lockQueue .worker
          | producer p => exact (hwake p job).2.1.trans (h.lockQueue (.producer p))
        closure := by
          intro j t
          cases t with
          | worker =>
              have hc := h.closure j .worker
              rw [State.InClosure, hw] at hc
              exact hc
          | producer p => exact (hwake p j).2.2.1.trans (h.closure j (.producer p))
        hand := by
          intro j hj
          obtain ⟨hi, ha, he⟩ := h.hand j (by rw [hw]; exact hj)
          exact ⟨hi, ha, fun hs p hearly => he hs p ((hwake p j).2.2.2.1.mp hearly)⟩
        plain := hplain
        callers := fun p => (hwake p job).2.2.2.2.1.mpr (h.callers p)
        issued := h.issued
        created := by
          intro p j hp
          rw [(hwake p j).2.2.2.2.2.1] at hp
          refine ⟨(h.created p j hp).1, fun p' hp' => (h.created p j hp).2 p' ?_⟩
          rwa [(hwake p' j).2.2.2.2.2.1] at hp'
        awake := by rintro ⟨⟩
        expects := by
          intro p j hp hsync
          obtain ⟨hold, hholds⟩ := Caller.Expects.of_wake (K := K) hp
          rcases h.expects p j hold hsync with hmem | hcarry
          · exact Or.inl hmem
          · rw [hw] at hcarry
            -- the producer and the worker would both hold the mutex of the closure
            have hp' : s.InClosure K job (.producer p) := hholds hcarry.symm hplain
            cases (h.closure job).unique hp' hin }
  | unlock =>
      obtain ⟨rfl, rfl⟩ := Prod.mk.inj (Option.some.inj hs)
      refine h.goOn rfl (h.keepCond ?_) (h.keepQueue ?_) (Guards.unlock_at (t := .worker) h.closure
        (fun j t ht => (State.in_of_ne_worker t ht).2.2 j) ?_ (by rintro ⟨⟩) fun j hj => ?_)
        (by rintro _ ⟨⟩) trivial
        (by rintro ⟨⟩) ?_
      · simp [hw, Worker.HoldsCond]
      · simp [hw, Worker.HoldsQueue, DoJobs.holds]
      · simp [State.InClosure, hw, Worker.HoldsClosure]
      · simp [State.InClosure, hw, Worker.HoldsClosure, Ne.symm hj]
      · simp [hw, Worker.Carries]

omit [DecidableEq J] in
/-- Taking the mutex of the condition, at the start or after it was waited for. -/
theorem Inv.lock_cond (h : Inv K s) (hw : s.worker = .start ∨ s.worker = .relock)
    {m : Option (Thread P)} (hm : lock s.cond_mutex_ .worker = some m) :
    Inv K { s with cond_mutex_ := m, worker := .test } := by
  obtain ⟨hfree, rfl⟩ := lock_eq_some.mp hm
  rcases hw with hw | hw <;>
    refine h.goOn rfl ((hfree ▸ h.cond).lock
      (fun t ht => (State.in_of_ne_worker (K := K) t ht).1) trivial) (h.keepQueue ?_)
      (h.keepClosure ?_) (by rintro _ ⟨⟩) trivial (by rintro ⟨⟩) ?_ <;>
    simp [hw, Worker.HoldsQueue, Worker.HoldsClosure, Worker.Carries]

/-- The worker keeps the invariant, as long as it takes jobs safely. -/
theorem Inv.jobs_loop_ (h : Inv K s) (hsafe : Safe K s (.run .worker))
    (hs : s.jobs_loop_ K = some s') : Inv K s' := by
  simp only [State.jobs_loop_] at hs
  have hplain := h.plain
  cases hw : s.worker with
  | start =>
      simp only [hw] at hs
      obtain ⟨m, hm, rfl⟩ := Option.map_eq_some_iff.mp hs
      exact h.lock_cond (Or.inl hw) hm
  | test =>
      simp only [hw, Option.some.injEq] at hs
      subst hs
      refine h.goOn rfl (h.keepCond ?_) (h.keepQueue ?_) (h.keepClosure ?_)
        (by rintro _ ⟨⟩) trivial (by rintro ⟨⟩)
        ?_ <;>
      simp [hw, Worker.HoldsCond, Worker.HoldsQueue, Worker.HoldsClosure, Worker.Carries,
        DoJobs.holds]
  | jobs pc =>
      by_cases hrun : ∃ job, pc = .run job
      · obtain ⟨job, rfl⟩ := hrun
        simp only [hw, Option.some.injEq] at hs
        subst hs
        refine h.goOn rfl (h.keepCond ?_) (h.keepQueue ?_) (h.keepClosure ?_)
          ?_ ?_ (by rintro ⟨⟩) ?_
        · simp [hw, Worker.HoldsCond]
        · simp [hw, Worker.HoldsQueue, DoJobs.holds]
        · simp [hw, Worker.HoldsClosure]
        · simp [hw, Worker.hand]
        · exact (h.hand job (by rw [hw]; rfl)).2.1
        · simp [hw, Worker.Carries]
      · have hstep : (s.queue.do_jobs .worker pc).map (fun r =>
            { s with queue := r.1, worker := r.2.elim .wait .jobs }) = some s' := by
          cases pc <;> simp_all
        obtain ⟨⟨q, pc'⟩, hq, rfl⟩ := Option.map_eq_some_iff.mp hstep
        exact h.do_jobs hw (fun job hj => hrun ⟨job, hj⟩) hsafe hq
  | body job rest =>
      obtain rfl : rest = [] := by
        rw [hw] at hplain
        exact hplain
      simp only [hw, Option.some.injEq] at hs
      subst hs
      cases hsync : K.is_synchronized job
      · refine h.goOn rfl (h.keepCond ?_) (h.keepQueue ?_) (h.keepClosure ?_)
          (by rintro _ ⟨⟩) trivial (by rintro ⟨⟩)
          fun j hj hjs => ?_
        · simp [hw, Worker.HoldsCond]
        · simp [hw, Worker.HoldsQueue, DoJobs.holds]
        · simp [hw, Worker.HoldsClosure]
        · obtain rfl : job = j := by simpa [hw, Worker.Carries] using hj
          simp [hsync] at hjs
      · refine h.goOn rfl (h.keepCond ?_) (h.keepQueue ?_) (h.keepClosure ?_)
          ?_ hsync (by rintro ⟨⟩) ?_
        · simp [hw, Worker.HoldsCond]
        · simp [hw, Worker.HoldsQueue]
        · simp [hw, Worker.HoldsClosure]
        · simp [hw, Worker.hand]
        · simp [hw, Worker.Carries]
  | bodyAdd job rest added pc => simp [hw, Worker.Plain] at hplain
  | bodySignal job rest pc => simp [hw, Worker.Plain] at hplain
  | notify job pc =>
      simp only [hw] at hs
      obtain ⟨⟨s₁, pc'⟩, hn, rfl⟩ := Option.map_eq_some_iff.mp hs
      exact h.notify hw hn
  | wait =>
      simp only [hw, Option.some.injEq] at hs
      subst hs
      refine h.goOn rfl (h.cond.unlock (t := .worker)
        (fun t ht => (State.in_of_ne_worker (K := K) t ht).1) ?_ (by rintro ⟨⟩)) (h.keepQueue ?_)
        (h.keepClosure ?_) (by rintro _ ⟨⟩) trivial (fun _ => Or.inl ?_) ?_ <;>
      simp [State.InCond, hw, Worker.HoldsCond, Worker.HoldsQueue, Worker.HoldsClosure,
        Worker.Carries, Worker.Settled]
  | waiting => simp [hw] at hs
  | relock =>
      simp only [hw] at hs
      obtain ⟨m, hm, rfl⟩ := Option.map_eq_some_iff.mp hs
      exact h.lock_cond (Or.inr hw) hm

end Worker

/-! ### The producers keep the invariant -/

section Producers

variable [DecidableEq P] {K : Clients J} {s s' : State P J} {q : ClosureQueue (Thread P) J}
  {m : Option (Thread P)} {n : J → Option (Thread P)} {w : Worker J} {p : P} {c : Caller J}
  {i : List J}

/-- A broadcast on the queue's condition moves the worker neither into nor out of a critical
section, and leaves it the job it has in hand. -/
theorem Worker.wake_facts (w : Worker J) : (w.wake.HoldsCond ↔ w.HoldsCond) ∧
    (w.wake.HoldsQueue ↔ w.HoldsQueue) ∧
    (∀ job, w.wake.HoldsClosure job ↔ w.HoldsClosure job) ∧ w.wake.hand = w.hand ∧
    (w.wake.Plain K ↔ w.Plain K) ∧ (∀ job, w.wake.Carries job ↔ w.Carries job) ∧
    (w.wake.Settled → w.HoldsCond) := by
  cases w with
  | waiting =>
      simp [Worker.wake, HoldsCond, HoldsQueue, HoldsClosure, hand, Plain, Carries, Settled]
  | start => simp [Worker.wake, Settled]
  | relock => simp [Worker.wake, Settled]
  | _ => simp [Worker.wake, HoldsCond]

/-- A step of a producer moves nobody else into or out of a critical section. -/
theorem State.in_of_ne_producer (hcond : w.HoldsCond ↔ s.worker.HoldsCond)
    (hqueue : w.HoldsQueue ↔ s.worker.HoldsQueue)
    (hclosure : ∀ job, w.HoldsClosure job ↔ s.worker.HoldsClosure job)
    (t : Thread P) (ht : t ≠ .producer p) :
    ((State.mk q m n w (update s.producers p c) i).InCond t ↔ s.InCond t) ∧
    ((State.mk q m n w (update s.producers p c) i).InQueue t ↔ s.InQueue t) ∧
    ∀ job, (State.mk q m n w (update s.producers p c) i).InClosure K job t ↔
      s.InClosure K job t := by
  cases t with
  | worker => exact ⟨hcond, hqueue, hclosure⟩
  | producer p' =>
      have hpp : p' ≠ p := fun hpp => ht (hpp ▸ rfl)
      simp [State.InCond, State.InQueue, State.InClosure, hpp]

/-- The producer stays inside or outside the critical sections of `cond_mutex_`. -/
theorem Inv.holdCond (h : Inv K s) (hw : w.HoldsCond ↔ s.worker.HoldsCond)
    (hc : c.HoldsCond ↔ (s.producers p).HoldsCond) :
    Guards s.cond_mutex_ (State.mk q m n w (update s.producers p c) i).InCond := by
  intro t
  cases t with
  | worker => exact hw.trans (h.cond .worker)
  | producer p' =>
      by_cases hpp : p' = p
      · subst hpp
        simpa [State.InCond, hc] using h.cond (.producer p')
      · simpa [State.InCond, hpp] using h.cond (.producer p')

/-- The producer stays inside or outside the critical sections of the queue. -/
theorem Inv.holdQueue (h : Inv K s) (hw : w.HoldsQueue ↔ s.worker.HoldsQueue)
    (hc : c.HoldsQueue ↔ (s.producers p).HoldsQueue) :
    Guards s.queue.job_queue_mutex_ (State.mk q m n w (update s.producers p c) i).InQueue := by
  intro t
  cases t with
  | worker => exact hw.trans (h.lockQueue .worker)
  | producer p' =>
      by_cases hpp : p' = p
      · subst hpp
        simpa [State.InQueue, hc] using h.lockQueue (.producer p')
      · simpa [State.InQueue, hpp] using h.lockQueue (.producer p')

/-- The producer stays inside or outside the critical sections of the closures. -/
theorem Inv.holdClosure (h : Inv K s)
    (hw : ∀ job, w.HoldsClosure job ↔ s.worker.HoldsClosure job)
    (hc : ∀ job, c.HoldsClosure K job ↔ (s.producers p).HoldsClosure K job) (job : J) :
    Guards (s.mutex job) ((State.mk q m n w (update s.producers p c) i).InClosure K job) := by
  intro t
  cases t with
  | worker => exact (hw job).trans (h.closure job .worker)
  | producer p' =>
      by_cases hpp : p' = p
      · subst hpp
        simpa [State.InClosure, hc] using h.closure job (.producer p')
      · simpa [State.InClosure, hpp] using h.closure job (.producer p')

/-- A producer goes on with its closure, leaving the jobs of the queue alone. -/
theorem Inv.callOn (h : Inv K s) (hq : q.job_queue_ = s.queue.job_queue_)
    (hcond : Guards m (State.mk q m n w (update s.producers p c) s.issued).InCond)
    (hlock : Guards q.job_queue_mutex_
      (State.mk q m n w (update s.producers p c) s.issued).InQueue)
    (hclosure : ∀ job, Guards (n job)
      ((State.mk q m n w (update s.producers p c) s.issued).InClosure K job))
    (hhand : w.hand = s.worker.hand) (hplain : w.Plain K)
    (hcarries : ∀ job, w.Carries job ↔ s.worker.Carries job)
    (hsettled : w.Settled → s.worker.Settled ∧ ((s.producers p).Owes → c.Owes))
    (hearly : ∀ job, c.Early job → (s.producers p).Early job) (hc : c.Plain K)
    (hjob : ∀ job, c.job = some job → (s.producers p).job = some job)
    (hexpects : ∀ job, c.Expects job → (s.producers p).Expects job) :
    Inv K (State.mk q m n w (update s.producers p c) s.issued) := by
  have hback : ∀ p' job, (update s.producers p c p').job = some job →
      (s.producers p').job = some job := by
    intro p' job hp'
    by_cases hpp : p' = p
    · subst hpp
      exact hjob job (by simpa using hp')
    · simpa [hpp] using hp'
  exact {
    cond := hcond
    lockQueue := hlock
    closure := hclosure
    hand := by
      intro job hj
      obtain ⟨hi, ha, he⟩ := h.hand job (hhand ▸ hj)
      refine ⟨hi, ha, fun hs p' hp' => he hs p' ?_⟩
      by_cases hpp : p' = p
      · subst hpp
        exact hearly job (by simpa using hp')
      · simpa [hpp] using hp'
    plain := hplain
    callers := by
      intro p'
      by_cases hpp : p' = p
      · subst hpp
        simpa using hc
      · simpa [hpp] using h.callers p'
    issued := fun job hj => h.issued job (hq ▸ hj)
    created := by
      intro p' job hp'
      obtain ⟨hi, hu⟩ := h.created p' job (hback p' job hp')
      exact ⟨hi, fun p'' hp'' => hu p'' (hback p'' job hp'')⟩
    awake := by
      intro hset hne
      obtain ⟨hset', howes⟩ := hsettled hset
      obtain ⟨p', hp'⟩ := h.awake hset' (hq ▸ hne)
      by_cases hpp : p' = p
      · subst hpp
        exact ⟨p', by simpa using howes hp'⟩
      · exact ⟨p', by simpa [hpp] using hp'⟩
    expects := by
      intro p' job hp' hs
      have hold : (s.producers p').Expects job := by
        by_cases hpp : p' = p
        · subst hpp
          exact hexpects job (by simpa using hp')
        · simpa [hpp] using hp'
      rcases h.expects p' job hold hs with hmem | hcarry
      · exact Or.inl (hq ▸ hmem)
      · exact Or.inr ((hcarries job).mpr hcarry) }

/-- A producer keeps the invariant inside `add_job`. -/
theorem Inv.add_job {job : J} {pc : AddJob} {pc' : Option AddJob} (h : Inv K s)
    (hp : s.producers p = .add job pc)
    (hs : s.queue.add_job (.producer p) job pc = some (q, pc')) :
    Inv K { s with
      queue := q
      producers := update s.producers p (pc'.elim (.signal job .lock) (.add job)) } := by
  have hcond : Guards s.cond_mutex_ (State.mk q s.cond_mutex_ s.mutex s.worker
      (update s.producers p (pc'.elim (.signal job .lock) (.add job))) s.issued).InCond :=
    h.holdCond Iff.rfl (by cases pc' <;> simp [hp, Caller.HoldsCond, Signal.Holds])
  have hclosure := fun j => h.holdClosure (q := q) (m := s.cond_mutex_) (n := s.mutex)
    (i := s.issued) (p := p) (c := pc'.elim (.signal job .lock) (.add job))
    (fun _ => Iff.rfl) (by cases pc' <;> simp [hp, Caller.HoldsClosure]) j
  cases pc with
  | lock =>
      obtain ⟨m, hm, heq⟩ := Option.map_eq_some_iff.mp hs
      obtain ⟨rfl, rfl⟩ := Prod.mk.inj heq
      obtain ⟨hfree, rfl⟩ := lock_eq_some.mp hm
      refine h.callOn rfl hcond ((hfree ▸ h.lockQueue).lock (fun t ht =>
        (State.in_of_ne_producer (K := K) Iff.rfl Iff.rfl (fun _ => Iff.rfl) t ht).2.1) ?_)
        hclosure rfl h.plain (fun _ => Iff.rfl) (fun hset => ⟨hset, ?_⟩) ?_ trivial ?_ ?_
      all_goals simp [hp, State.InQueue, Caller.HoldsQueue, AddJob.holds, Caller.Owes,
        Caller.Early, Caller.job, Caller.Expects]
  | push =>
      obtain ⟨rfl, rfl⟩ := Prod.mk.inj (Option.some.inj hs)
      obtain ⟨hi, hu⟩ := h.created p job (by rw [hp]; rfl)
      have hback : ∀ p' j, (update s.producers p (.add job .unlock) p').job = some j →
          (s.producers p').job = some j := by
        intro p' j hp'
        by_cases hpp : p' = p
        · subst hpp
          simpa [hp, Caller.job] using hp'
        · simpa [hpp] using hp'
      exact {
        cond := hcond
        lockQueue := h.holdQueue Iff.rfl (by simp [hp, Caller.HoldsQueue, AddJob.holds])
        closure := hclosure
        hand := by
          intro j hj
          obtain ⟨hi, ha, he⟩ := h.hand j hj
          refine ⟨hi, ha, fun hs p' hp' => he hs p' ?_⟩
          by_cases hpp : p' = p
          · subst hpp
            simpa [hp, Caller.Early] using hp'
          · simpa [hpp] using hp'
        plain := h.plain
        callers := by
          intro p'
          by_cases hpp : p' = p
          · subst hpp
            simp [Caller.Plain]
          · simpa [hpp] using h.callers p'
        issued := by
          intro j hj
          rcases List.mem_append.mp hj with hj | hj
          · exact h.issued j hj
          · obtain rfl := List.mem_singleton.mp hj
            exact hi
        created := by
          intro p' j hp'
          obtain ⟨hi, hu⟩ := h.created p' j (hback p' j hp')
          exact ⟨hi, fun p'' hp'' => hu p'' (hback p'' j hp'')⟩
        awake := fun _ _ => ⟨p, by simp [Caller.Owes]⟩
        expects := by
          intro p' j hp' hsync
          by_cases hpp : p' = p
          · subst hpp
            obtain rfl : job = j := by simpa [Caller.Expects] using hp'
            exact Or.inl (List.mem_append_right _ (List.mem_singleton_self _))
          · rcases h.expects p' j (by simpa [hpp] using hp') hsync with hmem | hcarry
            · exact Or.inl (List.mem_append_left _ hmem)
            · exact Or.inr hcarry }
  | unlock =>
      obtain ⟨rfl, rfl⟩ := Prod.mk.inj (Option.some.inj hs)
      refine h.callOn rfl hcond (h.lockQueue.unlock (t := .producer p) (fun t ht =>
        (State.in_of_ne_producer (K := K) Iff.rfl Iff.rfl (fun _ => Iff.rfl) t ht).2.1) ?_ ?_)
        hclosure rfl h.plain (fun _ => Iff.rfl) (fun hset => ⟨hset, ?_⟩) ?_ trivial ?_ ?_
      all_goals simp [hp, State.InQueue, Caller.HoldsQueue, AddJob.holds, Caller.Owes,
        Caller.Early, Caller.job, Caller.Expects]

/-- A producer keeps the invariant inside `signal_`. -/
theorem Inv.signal_ {job : J} {pc : Signal} {pc' : Option Signal} (h : Inv K s)
    (hp : s.producers p = .signal job pc) (hs : s.signal_ (.producer p) pc = some (s', pc')) :
    Inv K { s' with
      producers := update s.producers p
        (pc'.elim (if K.is_synchronized job then .wait job else .idle) (.signal job)) } := by
  cases pc with
  | lock =>
      obtain ⟨m, hm, heq⟩ := Option.map_eq_some_iff.mp hs
      obtain ⟨rfl, rfl⟩ := Prod.mk.inj heq
      obtain ⟨hfree, rfl⟩ := lock_eq_some.mp hm
      refine h.callOn rfl ((hfree ▸ h.cond).lock (fun t ht =>
        (State.in_of_ne_producer (K := K) Iff.rfl Iff.rfl (fun _ => Iff.rfl) t ht).1) ?_)
        (h.holdQueue Iff.rfl ?_) (h.holdClosure (fun _ => Iff.rfl) ?_) rfl h.plain
        (fun _ => Iff.rfl) (fun hset => ⟨hset, ?_⟩) ?_ trivial ?_ ?_
      all_goals simp [hp, State.InCond, Caller.HoldsCond, Signal.Holds, Caller.HoldsQueue,
        Caller.HoldsClosure, Caller.Owes, Caller.Early, Caller.job, Caller.Expects]
  | broadcast =>
      obtain ⟨rfl, rfl⟩ := Prod.mk.inj (Option.some.inj hs)
      obtain ⟨hc, hq, hcl, hhand, hplain, hcarries, hsettled⟩ := s.worker.wake_facts (K := K)
      have hin : s.InCond (.producer p) := by
        simp [State.InCond, hp, Caller.HoldsCond, Signal.Holds]
      -- the worker is not on its way to wait: it would hold the mutex as well
      have hbusy : ¬ s.worker.wake.Settled := by
        intro hset
        have hworker : s.InCond .worker := hsettled hset
        cases h.cond.unique hworker hin
      refine h.callOn rfl (h.holdCond hc ?_) (h.holdQueue hq ?_) (h.holdClosure hcl ?_) hhand
        (hplain.mpr h.plain) hcarries (fun hset => absurd hset hbusy) ?_ trivial ?_ ?_
      all_goals simp [hp, Caller.HoldsCond, Signal.Holds, Caller.HoldsQueue,
        Caller.HoldsClosure, Caller.Early, Caller.job, Caller.Expects]
  | unlock =>
      obtain ⟨rfl, rfl⟩ := Prod.mk.inj (Option.some.inj hs)
      refine h.callOn rfl (h.cond.unlock (t := .producer p) (fun t ht =>
        (State.in_of_ne_producer (K := K) Iff.rfl Iff.rfl (fun _ => Iff.rfl) t ht).1) ?_ ?_)
        (h.holdQueue Iff.rfl ?_) (h.holdClosure (fun _ => Iff.rfl) ?_) rfl h.plain
        (fun _ => Iff.rfl) (fun hset => ⟨hset, ?_⟩) ?_ ?_ ?_ ?_
      all_goals cases hsync : K.is_synchronized job
      all_goals simp [State.InCond, hp, hsync, Caller.HoldsCond, Signal.Holds, Caller.HoldsQueue,
        Caller.HoldsClosure, Caller.Owes, Caller.Early, Caller.job, Caller.Expects, Caller.Plain]

/-- A waiting producer wakes up for no reason. -/
theorem Inv.wakeCaller {job : J} (h : Inv K s) (hp : s.producers p = .waiting job) :
    Inv K { s with producers := update s.producers p (.relock job) } := by
  have hplain := h.callers p
  rw [hp] at hplain
  refine h.callOn rfl (h.holdCond Iff.rfl ?_) (h.holdQueue Iff.rfl ?_)
    (h.holdClosure (fun _ => Iff.rfl) ?_) rfl h.plain (fun _ => Iff.rfl)
    (fun hset => ⟨hset, ?_⟩) ?_ hplain ?_ ?_
  all_goals simp [hp, Caller.HoldsCond, Caller.HoldsQueue, Caller.HoldsClosure, Caller.Owes,
    Caller.Early, Caller.job, Caller.Expects]

variable [DecidableEq J]

/-- A producer creates a closure. -/
theorem Inv.create {job : J} (h : Inv K s) (hjob : job ∉ s.issued)
    (hp : s.producers p = .idle) :
    Inv K { s with
      mutex := if K.is_synchronized job then update s.mutex job (some (.producer p)) else s.mutex
      producers := update s.producers p (.add job .lock)
      issued := job :: s.issued } := by
  have hold : ∀ p' j, (update s.producers p (.add job .lock) p').job = some j →
      p' = p ∧ j = job ∨ p' ≠ p ∧ (s.producers p').job = some j := by
    intro p' j hp'
    by_cases hpp : p' = p
    · subst hpp
      exact Or.inl ⟨rfl, by simpa [Caller.job, eq_comm] using hp'⟩
    · exact Or.inr ⟨hpp, by simpa [hpp] using hp'⟩
  refine {
    cond := h.holdCond Iff.rfl (by simp [hp, Caller.HoldsCond])
    lockQueue := h.holdQueue Iff.rfl (by simp [hp, Caller.HoldsQueue, AddJob.holds])
    closure := ?_
    hand := fun j hj => ?_
    plain := h.plain
    callers := fun p' => ?_
    issued := fun j hj => List.mem_cons_of_mem _ (h.issued j hj)
    created := fun p' j hp' => ?_
    awake := fun hset hne => ?_
    expects := fun p' j hp' hsync => ?_ }
  · cases hsync : K.is_synchronized job
    · refine h.holdClosure (fun _ => Iff.rfl) fun j => ?_
      simp only [Caller.HoldsClosure, hp, iff_false, not_and]
      rintro rfl
      simp [hsync]
    · refine Guards.lock_at h.closure (h.mutex_free hjob) (fun j t ht =>
        (State.in_of_ne_producer Iff.rfl Iff.rfl (fun _ => Iff.rfl) t ht).2.2 j) ?_ fun j hj => ?_
      · simp [State.InClosure, Caller.HoldsClosure, hsync]
      · simp [State.InClosure, Caller.HoldsClosure, hp, Ne.symm hj]
  · obtain ⟨hi, ha, he⟩ := h.hand j hj
    refine ⟨List.mem_cons_of_mem _ hi, ha, fun hs p' hp' => ?_⟩
    by_cases hpp : p' = p
    · subst hpp
      obtain rfl : job = j := by simpa [Caller.Early] using hp'
      exact hjob hi
    · exact he hs p' (by simpa [hpp] using hp')
  · by_cases hpp : p' = p
    · subst hpp
      simp [Caller.Plain]
    · simpa [hpp] using h.callers p'
  · rcases hold p' j hp' with ⟨rfl, rfl⟩ | ⟨hpp, hp'⟩
    · refine ⟨List.mem_cons_self, fun p'' hp'' => ?_⟩
      rcases hold p'' _ hp'' with ⟨rfl, -⟩ | ⟨-, hp''⟩
      · rfl
      · exact absurd (h.created p'' _ hp'').1 hjob
    · obtain ⟨hi, hu⟩ := h.created p' j hp'
      refine ⟨List.mem_cons_of_mem _ hi, fun p'' hp'' => ?_⟩
      rcases hold p'' _ hp'' with ⟨-, rfl⟩ | ⟨-, hp''⟩
      · exact absurd hi hjob
      · exact hu p'' hp''
  · obtain ⟨p', hp'⟩ := h.awake hset hne
    have hpp : p' ≠ p := by
      rintro rfl
      simp [hp, Caller.Owes] at hp'
    exact ⟨p', by simpa [hpp] using hp'⟩
  · have hpp : p' ≠ p := by
      rintro rfl
      simp [Caller.Expects] at hp'
    exact h.expects p' j (by simpa [hpp] using hp') hsync

/-- A producer keeps the invariant. -/
theorem Inv.call (h : Inv K s) (hs : s.call K p = some s') : Inv K s' := by
  simp only [State.call] at hs
  have hplain := h.callers p
  have hother : ∀ (n : J → Option (Thread P)) (c : Caller J) (j : J), ∀ t ≠ .producer p,
      ({ s with mutex := n, producers := update s.producers p c }.InClosure K j t ↔
        s.InClosure K j t) := fun n c j t ht =>
    (State.in_of_ne_producer Iff.rfl Iff.rfl (fun _ => Iff.rfl) t ht).2.2 j
  cases hp : s.producers p with
  | idle => simp [hp] at hs
  | add job pc =>
      simp only [hp] at hs
      obtain ⟨⟨q, pc'⟩, hq, rfl⟩ := Option.map_eq_some_iff.mp hs
      exact h.add_job hp hq
  | signal job pc =>
      simp only [hp] at hs
      obtain ⟨⟨s₁, pc'⟩, hq, rfl⟩ := Option.map_eq_some_iff.mp hs
      exact h.signal_ hp hq
  | wait job =>
      simp only [hp, Option.some.injEq] at hs
      subst hs
      rw [hp] at hplain
      refine h.callOn rfl (h.holdCond Iff.rfl ?_) (h.holdQueue Iff.rfl ?_)
        (Guards.unlock_at (t := .producer p) h.closure (hother _ _) ?_ ?_ fun j hj => ?_) rfl
        h.plain (fun _ => Iff.rfl) (fun hset => ⟨hset, ?_⟩) ?_ hplain ?_ ?_
      case refine_5 => simp [State.InClosure, hp, Caller.HoldsClosure, Ne.symm hj]
      all_goals simp [hp, State.InClosure, Caller.HoldsCond, Caller.HoldsQueue,
        Caller.HoldsClosure, Caller.Owes, Caller.Early, Caller.job, Caller.Expects]
      exact hplain
  | waiting job => simp [hp] at hs
  | relock job =>
      simp only [hp] at hs
      obtain ⟨m, hm, rfl⟩ := Option.map_eq_some_iff.mp hs
      obtain ⟨hfree, rfl⟩ := lock_eq_some.mp hm
      rw [hp] at hplain
      refine h.callOn rfl (h.holdCond Iff.rfl ?_) (h.holdQueue Iff.rfl ?_)
        (Guards.lock_at h.closure hfree (hother _ _) ?_ fun j hj => ?_) rfl
        h.plain (fun _ => Iff.rfl) (fun hset => ⟨hset, ?_⟩) ?_ hplain ?_ ?_
      case refine_4 => simp [State.InClosure, hp, Caller.HoldsClosure, Ne.symm hj]
      all_goals simp [hp, State.InClosure, Caller.HoldsCond, Caller.HoldsQueue,
        Caller.HoldsClosure, Caller.Owes, Caller.Early, Caller.job, Caller.Expects]
      exact hplain
  | delete job =>
      simp only [hp, Option.some.injEq] at hs
      subst hs
      rw [hp] at hplain
      refine h.callOn rfl (h.holdCond Iff.rfl ?_) (h.holdQueue Iff.rfl ?_)
        (Guards.unlock_at (t := .producer p) h.closure (hother _ _) ?_ ?_ fun j hj => ?_) rfl
        h.plain (fun _ => Iff.rfl) (fun hset => ⟨hset, ?_⟩) ?_ trivial ?_ ?_
      case refine_5 => simp [State.InClosure, hp, Caller.HoldsClosure, Ne.symm hj]
      all_goals simp [hp, State.InClosure, Caller.HoldsCond, Caller.HoldsQueue,
        Caller.HoldsClosure, Caller.Owes, Caller.Early, Caller.job, Caller.Expects]
      exact hplain

/-- **Every step keeps the invariant**, as long as closures are created once and taken
safely. -/
theorem Inv.step {a : Act P J} (h : Inv K s) (hcreated : Created s a) (hsafe : Safe K s a)
    (hs : s.step K a = some s') : Inv K s' := by
  cases a with
  | run t =>
      cases t with
      | worker => exact h.jobs_loop_ hsafe hs
      | producer p => exact h.call hs
  | create p job =>
      simp only [State.step] at hs
      split at hs
      · rename_i hp
        obtain rfl := Option.some.inj hs
        exact h.create hcreated hp
      · simp at hs
  | wakeup t =>
      cases t with
      | worker =>
          simp only [State.step] at hs
          split at hs
          · rename_i hw
            obtain rfl := Option.some.inj hs
            exact h.wakeup hw
          · simp at hs
      | producer p =>
          simp only [State.step] at hs
          split at hs
          · rename_i hp
            obtain rfl := Option.some.inj hs
            exact h.wakeCaller hp
          · simp at hs

/-- The invariant holds throughout. -/
theorem inv_invariant :
    Invariant ((system P K).restrict fun s a => Created s a ∧ Safe K s a) (Inv K) where
  init := by
    rintro s rfl
    exact Inv.fresh
  step _ _ _ h hst := h.step hst.1.1 hst.1.2 hst.2

end Producers

/-! ### No deadlock -/

/-- How far a thread is from having a step: on how many mutexes, one held by the next
thread, it can be blocked. -/
def State.rank (s : State P J) : Thread P → ℕ
  | .worker =>
    match s.worker with
    | .start | .relock | .jobs .lock | .notify _ .lock => 1
    | _ => 0
  | .producer p =>
    match s.producers p with
    | .signal _ .lock => 2
    | .add _ .lock | .relock _ => 1
    | _ => 0

section Deadlock

variable {K : Clients J} {s : State P J} {t t' : Thread P}

/-- A producer inside a critical section of the queue's mutexes is not blocked. -/
theorem State.rank_producer {p : P}
    (h : (s.producers p).HoldsCond ∨ (s.producers p).HoldsQueue) : s.rank (.producer p) = 0 := by
  rcases hp : s.producers p with _ | ⟨j, _ | _ | _⟩ | ⟨j, _ | _ | _⟩ | _ | _ | _ | _ <;>
    simp_all [State.rank, Caller.HoldsCond, Caller.HoldsQueue, Signal.Holds, AddJob.holds]

/-- The creator of a closure that is past locking `cond_mutex_` holds the closure's mutex
without being blocked. -/
theorem State.rank_creator {p : P} {job : J} (h : (s.producers p).HoldsClosure K job)
    (hearly : ¬ (s.producers p).Early job) : s.rank (.producer p) = 0 := by
  rcases hp : s.producers p with _ | _ | ⟨j, _ | _ | _⟩ | _ | _ | _ | _ <;>
    simp_all [State.rank, Caller.HoldsClosure, Caller.Early]

/-- The worker waits for nobody that waits for it. -/
theorem State.rank_worker (s : State P J) : s.rank .worker ≤ 1 := by
  unfold State.rank
  dsimp only
  split <;> simp

/-- Whoever holds the mutex that the worker waits for has a step. -/
theorem Inv.rank_lt_worker (h : Inv K s) (hw : s.WaitsFor .worker t') :
    s.rank t' < s.rank .worker := by
  simp only [State.WaitsFor, State.wants] at hw
  have hplain := h.plain
  -- the holder is a producer, and inside
  have hcond : ¬ s.worker.HoldsCond → s.cond_mutex_ = some t' → s.rank t' = 0 := by
    intro hno hm
    have hin := (h.cond t').mpr hm
    cases t' with
    | worker => exact absurd hin hno
    | producer p => exact State.rank_producer (Or.inl hin)
  cases hpc : s.worker with
  | start =>
      simp only [hpc] at hw hcond
      rw [hcond id hw]
      simp [State.rank, hpc]
  | relock =>
      simp only [hpc] at hw hcond
      rw [hcond id hw]
      simp [State.rank, hpc]
  | jobs pc =>
      cases pc with
      | lock =>
          simp only [hpc] at hw
          have hin := (h.lockQueue t').mpr hw
          cases t' with
          | worker => simp [State.InQueue, hpc, Worker.HoldsQueue, DoJobs.holds] at hin
          | producer p =>
              rw [State.rank_producer (Or.inr hin)]
              simp [State.rank, hpc]
      | _ => simp [hpc] at hw
  | notify job pc =>
      cases pc with
      | lock =>
          simp only [hpc] at hw
          have hin := (h.closure job t').mpr hw
          cases t' with
          | worker => simp [State.InClosure, hpc, Worker.HoldsClosure] at hin
          | producer p =>
              -- the job was taken when its creator was past `signal_`'s lock
              rw [hpc] at hplain
              have hearly := (h.hand job (by rw [hpc]; rfl)).2.2 hplain p
              rw [State.rank_creator hin hearly]
              simp [State.rank, hpc]
      | _ => simp [hpc] at hw
  | bodyAdd job rest added pc => simp [hpc, Worker.Plain] at hplain
  | bodySignal job rest pc => simp [hpc, Worker.Plain] at hplain
  | _ => simp [hpc] at hw

/-- Whoever holds the mutex that a producer waits for is closer to having a step. -/
theorem Inv.rank_lt_producer {p : P} (h : Inv K s) (hw : s.WaitsFor (.producer p) t') :
    s.rank t' < s.rank (.producer p) := by
  simp only [State.WaitsFor, State.wants] at hw
  cases hpc : s.producers p with
  | add job pc =>
      cases pc with
      | lock =>
          simp only [hpc] at hw
          have hin := (h.lockQueue t').mpr hw
          have hzero : s.rank t' = 0 := by
            cases t' with
            | worker =>
                rcases hwk : s.worker with _ | _ | ⟨_ | _ | _ | _ | _⟩ | _ | _ | _ | _ |
                  _ | _ | _ <;>
                simp_all [State.InQueue, Worker.HoldsQueue, DoJobs.holds, State.rank]
            | producer p' => exact State.rank_producer (Or.inr hin)
          rw [hzero]
          simp [State.rank, hpc]
      | _ => simp [hpc] at hw
  | signal job pc =>
      cases pc with
      | lock =>
          simp only [hpc] at hw
          have hin := (h.cond t').mpr hw
          have hle : s.rank t' ≤ 1 := by
            cases t' with
            | worker => exact s.rank_worker
            | producer p' => simp [State.rank_producer (Or.inl hin)]
          have htwo : s.rank (.producer p) = 2 := by simp [State.rank, hpc]
          omega
      | _ => simp [hpc] at hw
  | relock job =>
      simp only [hpc] at hw
      have hin := (h.closure job t').mpr hw
      cases t' with
      | worker =>
          have hzero : s.rank .worker = 0 := by
            rcases hwk : s.worker with _ | _ | _ | _ | _ | _ | ⟨j, _ | _ | _⟩ | _ | _ | _ <;>
              simp_all [State.InClosure, Worker.HoldsClosure, State.rank]
          rw [hzero]
          simp [State.rank, hpc]
      | producer p' =>
          -- nobody else has this closure
          have hjob : (s.producers p').job = some job := by
            cases hp' : s.producers p' <;>
              simp_all [State.InClosure, Caller.HoldsClosure, Caller.job]
          obtain rfl := (h.created p job (by rw [hpc]; rfl)).2 p' hjob
          simp [State.InClosure, hpc, Caller.HoldsClosure] at hin
  | _ => simp [hpc] at hw

/-- **The lock order.** Whoever holds the mutex that a thread waits for is closer to having
a step than that thread. -/
theorem Inv.rank_lt (h : Inv K s) (hw : s.WaitsFor t t') : s.rank t' < s.rank t := by
  cases t with
  | worker => exact h.rank_lt_worker hw
  | producer p => exact h.rank_lt_producer hw

/-- The threads that have no step although they wait for no mutex: a worker and a producer
inside `pthread_cond_wait`, and a producer that has nothing to do. -/
def State.Resting (s : State P J) : Thread P → Prop
  | .worker => s.worker = .waiting
  | .producer p => s.producers p = .idle ∨ ∃ job, s.producers p = .waiting job

/-- Whoever holds a mutex is not resting. -/
theorem Inv.not_resting (h : Inv K s) (hw : s.WaitsFor t t') : ¬ s.Resting t' := by
  have hin : s.InCond t' ∨ s.InQueue t' ∨ ∃ job, s.InClosure K job t' := by
    simp only [State.WaitsFor, State.wants] at hw
    have hc := h.cond t'
    have hq := h.lockQueue t'
    have hcl := fun job => h.closure job t'
    split at hw <;> split at hw <;> first
      | exact Or.inl (hc.mpr hw)
      | exact Or.inr (Or.inl (hq.mpr hw))
      | exact Or.inr (Or.inr ⟨_, (hcl _).mpr hw⟩)
      | simp at hw
  intro hrest
  cases t' with
  | worker =>
      rw [State.Resting] at hrest
      simp [State.InCond, State.InQueue, State.InClosure, hrest, Worker.HoldsCond,
        Worker.HoldsQueue, Worker.HoldsClosure] at hin
  | producer p =>
      rcases hrest with hrest | ⟨job, hrest⟩ <;>
      simp [State.InCond, State.InQueue, State.InClosure, hrest, Caller.HoldsCond,
        Caller.HoldsQueue, Caller.HoldsClosure] at hin

/-- While the worker waits and a job is in the queue, some producer is awake. -/
theorem Inv.exists_awake (h : Inv K s) (hw : s.worker = .waiting)
    (hq : s.queue.job_queue_ ≠ []) : ∃ t, ¬ s.Resting t := by
  obtain ⟨p, hp⟩ := h.awake (by rw [hw]; trivial) hq
  refine ⟨.producer p, ?_⟩
  rintro (hrest | ⟨job, hrest⟩) <;> simp [hrest, Caller.Owes] at hp

variable [DecidableEq P] [DecidableEq J]

/-- A thread without a step is resting or waits for a mutex. -/
theorem State.blocked (h : s.run K t = none) : s.Resting t ∨ ∃ t', s.WaitsFor t t' := by
  cases t with
  | worker =>
      simp only [State.run, State.jobs_loop_] at h
      simp only [State.WaitsFor, State.wants, State.Resting]
      cases hw : s.worker with
      | waiting => exact Or.inl rfl
      | start =>
          simp only [hw, Option.map_eq_none_iff] at h
          exact Or.inr (exists_of_lock_eq_none h)
      | relock =>
          simp only [hw, Option.map_eq_none_iff] at h
          exact Or.inr (exists_of_lock_eq_none h)
      | jobs pc =>
          cases pc with
          | lock =>
              simp only [hw, ClosureQueue.do_jobs, Option.map_eq_none_iff] at h
              exact Or.inr (exists_of_lock_eq_none h)
          | take =>
              cases hq : s.queue.job_queue_ <;>
                simp only [hw, ClosureQueue.do_jobs, hq, Option.map_some, reduceCtorEq] at h
          | _ => simp [hw, ClosureQueue.do_jobs] at h
      | body job rest => cases rest <;> simp [hw] at h
      | bodyAdd job rest added pc =>
          cases pc with
          | lock =>
              simp only [hw, ClosureQueue.add_job, Option.map_eq_none_iff] at h
              exact Or.inr (exists_of_lock_eq_none h)
          | _ => simp [hw, ClosureQueue.add_job] at h
      | bodySignal job rest pc =>
          cases pc with
          | lock =>
              simp only [hw, State.signal_, Option.map_eq_none_iff] at h
              exact Or.inr (exists_of_lock_eq_none h)
          | _ => simp [hw, State.signal_] at h
      | notify job pc =>
          cases pc with
          | lock =>
              simp only [hw, State.notify, Option.map_eq_none_iff] at h
              exact Or.inr (exists_of_lock_eq_none h)
          | _ => simp [hw, State.notify] at h
      | _ => simp [hw] at h
  | producer p =>
      simp only [State.run, State.call] at h
      simp only [State.WaitsFor, State.wants, State.Resting]
      cases hp : s.producers p with
      | idle => exact Or.inl (Or.inl rfl)
      | waiting job => exact Or.inl (Or.inr ⟨job, rfl⟩)
      | add job pc =>
          cases pc with
          | lock =>
              simp only [hp, ClosureQueue.add_job, Option.map_eq_none_iff] at h
              exact Or.inr (exists_of_lock_eq_none h)
          | _ => simp [hp, ClosureQueue.add_job] at h
      | signal job pc =>
          cases pc with
          | lock =>
              simp only [hp, State.signal_, Option.map_eq_none_iff] at h
              exact Or.inr (exists_of_lock_eq_none h)
          | _ => simp [hp, State.signal_] at h
      | relock job =>
          simp only [hp, Option.map_eq_none_iff] at h
          exact Or.inr (exists_of_lock_eq_none h)
      | _ => simp [hp] at h

/-- Unless a thread is resting, it or a thread that it waits for, directly or not, has a
step. -/
theorem Inv.exists_step (h : Inv K s) (ht : ¬ s.Resting t) : ∃ t', (s.run K t').isSome := by
  induction hn : s.rank t using Nat.strong_induction_on generalizing t with
  | _ n ih =>
      cases hrun : s.run K t with
      | some s' => exact ⟨t, by simp [hrun]⟩
      | none =>
          obtain ⟨t', hw⟩ := (State.blocked hrun).resolve_left ht
          exact ih (s.rank t') (hn ▸ h.rank_lt hw) (h.not_resting hw) rfl

/-- A thread has work left: the worker unless it waits and the queue is empty, a producer
unless it is idle. -/
def State.HasWork (s : State P J) : Thread P → Prop
  | .worker => s.worker ≠ .waiting ∨ s.queue.job_queue_ ≠ []
  | .producer p => s.producers p ≠ .idle

/-- **No deadlock.** In every run in which closures are created once and the worker takes
jobs safely, no threads wait for each other's mutexes in a cycle, and whenever a thread has
work left some thread has a step. -/
theorem no_deadlock
    (hr : Reachable ((system P K).restrict fun s a => Created s a ∧ Safe K s a) s) :
    (∀ t, ¬ Relation.TransGen s.WaitsFor t t) ∧
      ∀ t, s.HasWork t → ∃ t', (s.run K t').isSome := by
  have h := inv_invariant.holds hr
  constructor
  · intro t hcycle
    have hlt : ∀ t', Relation.TransGen s.WaitsFor t t' → s.rank t' < s.rank t := by
      intro t' ht'
      induction ht' with
      | single hw => exact h.rank_lt hw
      | tail _ hw ih => exact (h.rank_lt hw).trans ih
    exact lt_irrefl _ (hlt t hcycle)
  · intro t hwork
    suffices hawake : ∃ t', ¬ s.Resting t' by
      obtain ⟨t', ht'⟩ := hawake
      exact h.exists_step ht'
    by_cases hw : s.worker = .waiting
    · cases t with
      | worker => exact h.exists_awake hw (hwork.resolve_left fun hne => hne hw)
      | producer p =>
          by_cases hrest : s.Resting (.producer p)
          · -- the closure it waits for is still in the queue
            obtain ⟨job, hp⟩ := hrest.resolve_left hwork
            have hsync : K.is_synchronized job = true := by
              have hc := h.callers p
              rwa [hp] at hc
            rcases h.expects p job (by rw [hp]; rfl) hsync with hmem | hcarry
            · exact h.exists_awake hw (List.ne_nil_of_mem hmem)
            · simp [hw, Worker.Carries] at hcarry
          · exact ⟨_, hrest⟩
    · exact ⟨.worker, hw⟩

end Deadlock

instance [DecidableEq J] (job : J) (pc : Caller J) : Decidable (pc.Early job) :=
  match pc with
  | .add j _ | .signal j .lock => inferInstanceAs (Decidable (j = job))
  | .idle | .signal _ .broadcast | .signal _ .unlock | .wait _ | .waiting _ | .relock _
  | .delete _ => isFalse id

instance [Fintype P] [DecidableEq J] (K : Clients J) (s : State P J) (a : Act P J) :
    Decidable (Created s a ∧ Safe K s a) :=
  match a with
  | .run .worker => inferInstanceAs (Decidable (True ∧ ∀ job ∈ s.taken, K.adds job = [] ∧
      (K.is_synchronized job = true → ∀ p, ¬ (s.producers p).Early job)))
  | .create _ job => inferInstanceAs (Decidable (job ∉ s.issued ∧ True))
  | .run (.producer _) | .wakeup _ => inferInstanceAs (Decidable (True ∧ True))

/-- A synchronous call whose closure the worker takes after it was signalled: the producer
waits, and the worker can notify it. -/
theorem no_deadlock_call :
    let K : Clients ℕ := ⟨fun _ => true, fun _ => []⟩
    ∃ s : State Unit ℕ, s.producers () = .waiting 7 ∧ s.worker = .notify 7 .lock ∧
      ∃ t, (s.run K t).isSome := by
  intro K
  obtain ⟨s, hs, hend⟩ := Option.map_eq_some_iff.mp
    (show (execUnder (State.step K) (fun s a => Created s a ∧ Safe K s a)
      (State.fresh : State Unit ℕ)
      ([.create () 7] ++ List.replicate 7 (.run (.producer ())) ++
        List.replicate 7 (.run .worker))).map
      (fun s => (s.producers (), s.worker)) = some (.waiting 7, .notify 7 .lock) by rfl)
  obtain ⟨hp, hw⟩ := Prod.mk.inj hend
  have hr : Reachable ((system Unit K).restrict fun s a => Created s a ∧ Safe K s a) s :=
    Reachable.execUnder (.init rfl) hs
  exact ⟨s, hp, hw, (no_deadlock hr).2 (.producer ()) (by simp [State.HasWork, hp])⟩

instance [DecidableEq J] (s : State P J) (a : Act P J) : Decidable (Created s a) :=
  match a with
  | .create _ job => inferInstanceAs (Decidable (job ∉ s.issued))
  | .run _ | .wakeup _ => inferInstanceAs (Decidable True)

/-- **The cycles that `Safe` excludes.** The worker takes a synchronized closure before its
creator has signalled: the worker waits for the closure's mutex and the creator for the
queue's. And the body of a plain job adds a job: the worker waits for itself. In both cases
no thread has a step. -/
theorem deadlocks :
    (∃ s : State Unit ℕ,
      Reachable ((system Unit ⟨fun _ => true, fun _ => []⟩).restrict Created) s ∧
        s.WaitsFor .worker (.producer ()) ∧ s.WaitsFor (.producer ()) .worker ∧
        ∀ t, s.run ⟨fun _ => true, fun _ => []⟩ t = none) ∧
    ∃ s : State Unit ℕ,
      Reachable ((system Unit ⟨fun _ => false, fun _ => [8]⟩).restrict Created) s ∧
        s.WaitsFor .worker .worker ∧ s.producers () ≠ .idle ∧
        ∀ t, s.run ⟨fun _ => false, fun _ => [8]⟩ t = none := by
  constructor
  · obtain ⟨s, hs, hend⟩ := Option.map_eq_some_iff.mp
      (show (execUnder (State.step ⟨fun _ => true, fun _ => []⟩) Created
        (State.fresh : State Unit ℕ)
        ([.create () 7] ++ List.replicate 3 (.run (.producer ())) ++
          List.replicate 7 (.run .worker))).map
        (fun s => (s.worker, s.producers (), s.mutex 7, s.cond_mutex_)) =
          some (.notify 7 .lock, .signal 7 .lock, some (.producer ()), some .worker) by rfl)
    simp only [Prod.mk.injEq] at hend
    obtain ⟨hw, hp, hm, hc⟩ := hend
    refine ⟨s, Reachable.execUnder (.init rfl) hs, ?_, ?_, fun t => ?_⟩
    · simp [State.WaitsFor, State.wants, hw, hm]
    · simp [State.WaitsFor, State.wants, hp, hc]
    · rcases t with _ | ⟨⟨⟩⟩ <;>
        simp [State.run, State.jobs_loop_, State.call, State.notify, State.signal_, hw, hp, hm, hc,
          lock]
  · obtain ⟨s, hs, hend⟩ := Option.map_eq_some_iff.mp
      (show (execUnder (State.step ⟨fun _ => false, fun _ => [8]⟩) Created
        (State.fresh : State Unit ℕ)
        ([.create () 7] ++ List.replicate 3 (.run (.producer ())) ++
          List.replicate 10 (.run .worker))).map
        (fun s => (s.worker, s.producers (), s.cond_mutex_)) =
          some (.bodySignal 7 [] .lock, .signal 7 .lock, some .worker) by rfl)
    simp only [Prod.mk.injEq] at hend
    obtain ⟨hw, hp, hc⟩ := hend
    refine ⟨s, Reachable.execUnder (.init rfl) hs, ?_, by simp [hp], fun t => ?_⟩
    · simp [State.WaitsFor, State.wants, hw, hc]
    · rcases t with _ | ⟨⟨⟩⟩ <;>
        simp [State.run, State.jobs_loop_, State.call, State.signal_, hw, hp, hc, lock]

end SyncCalls

end FreeJ
