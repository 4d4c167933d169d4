import Mathlib.Data.List.Basic
import FreeJ.Mutex

/-!
# The Closure Queue

`ClosureQueue` of `closure.cpp`, as the steps its functions take. A thread inside `add_job`
or inside `do_jobs` is at a position between two steps (`AddJob`, `DoJobs`); a step of the
function takes the queue and the position to the next ones, the position being `none` when
the function returns. A job has no effect on the queue here; what was pushed, run and
deleted so far is recorded. The jobs are not synchronized, so `do_jobs` deletes each of
them after running it.

## Main results

* `ClosureQueue.do_jobs_order`: the jobs that were run, then the one that was taken, then
  those that wait are the jobs that were pushed, in order.
* `ClosureQueue.do_jobs_queue`: `do_jobs` returns only when it has found the queue empty.
-/

namespace FreeJ

open Mutex

/-- `ClosureQueue`, with the history of what was done to its jobs. -/
structure ClosureQueue (T J : Type*) where
  job_queue_ : List J
  /-- who holds `job_queue_mutex_` -/
  job_queue_mutex_ : Option T
  /-- the jobs that were pushed, in order -/
  pushed : List J
  /-- the jobs whose `run` was called, in order -/
  ran : List J
  /-- the jobs that were deleted, in order -/
  deleted : List J

/-- Positions in `ClosureQueue::add_job`. -/
inductive AddJob
  | lock
  | push
  | unlock
  deriving DecidableEq

/-- Positions in `ClosureQueue::do_jobs`, the first three of them in `get_job_`. -/
inductive DoJobs (J : Type*)
  | lock
  | take
  | unlock (job : Option J)
  | run (job : J)
  | delete (job : J)
  deriving DecidableEq

/-- Positions in code that locks a mutex, broadcasts and unlocks:
`ThreadedClosureQueue::signal_`, and the end of `Closure::run`. -/
inductive Signal
  | lock
  | broadcast
  | unlock
  deriving DecidableEq

/-- The mutex is held. -/
def Signal.Holds : Signal → Prop
  | .lock => False
  | _ => True

variable {T J : Type*}

/-- The queue that was just constructed. -/
def ClosureQueue.empty : ClosureQueue T J := ⟨[], none, [], [], []⟩

/-- `ClosureQueue::add_job`, step by step. -/
def ClosureQueue.add_job (q : ClosureQueue T J) (t : T) (job : J) :
    AddJob → Option (ClosureQueue T J × Option AddJob)
  | .lock =>
    (lock q.job_queue_mutex_ t).map fun m => ({ q with job_queue_mutex_ := m }, some .push)
  | .push =>
    some ({ q with job_queue_ := q.job_queue_ ++ [job], pushed := q.pushed ++ [job] },
      some .unlock)
  | .unlock => some ({ q with job_queue_mutex_ := none }, none)

/-- `ClosureQueue::do_jobs`, step by step. -/
def ClosureQueue.do_jobs (q : ClosureQueue T J) (t : T) :
    DoJobs J → Option (ClosureQueue T J × Option (DoJobs J))
  | .lock =>
    (lock q.job_queue_mutex_ t).map fun m => ({ q with job_queue_mutex_ := m }, some .take)
  | .take =>
    match q.job_queue_ with
    | [] => some (q, some (.unlock none))
    | job :: jobs => some ({ q with job_queue_ := jobs }, some (.unlock (some job)))
  | .unlock job => some ({ q with job_queue_mutex_ := none }, job.map .run)
  | .run job => some ({ q with ran := q.ran ++ [job] }, some (.delete job))
  | .delete job => some ({ q with deleted := q.deleted ++ [job] }, some .lock)

/-- The job that was taken from the queue and not yet run. -/
def DoJobs.pending : DoJobs J → List J
  | .unlock (some job) => [job]
  | .run job => [job]
  | _ => []

/-- The job that was run and not yet deleted. -/
def DoJobs.spent : DoJobs J → List J
  | .delete job => [job]
  | _ => []

/-- Whether `add_job` holds `job_queue_mutex_`. -/
def AddJob.holds : AddJob → Bool
  | .lock => false
  | _ => true

/-- Whether `do_jobs` holds `job_queue_mutex_`. -/
def DoJobs.holds : DoJobs J → Bool
  | .take => true
  | .unlock _ => true
  | _ => false

/-- The jobs of the queue are accounted for: run, taken and waiting ones make up the pushed
ones, and deleted and spent ones those that were run. -/
structure ClosureQueue.Account (q : ClosureQueue T J) (pending spent : List J) : Prop where
  pushed : q.pushed = q.ran ++ pending ++ q.job_queue_
  ran : q.ran = q.deleted ++ spent

variable {q q' : ClosureQueue T J} {t : T} {pending spent : List J}

/-- What a step of `add_job` can do. -/
theorem ClosureQueue.add_job_cases {job : J} {pc : AddJob} {pc' : Option AddJob}
    (h : q.add_job t job pc = some (q', pc')) :
    (pc = .lock ∧ q.job_queue_mutex_ = none ∧ q' = { q with job_queue_mutex_ := some t } ∧
        pc' = some .push) ∨
      (pc = .push ∧ pc' = some .unlock ∧
        q' = { q with job_queue_ := q.job_queue_ ++ [job], pushed := q.pushed ++ [job] }) ∨
      pc = .unlock ∧ q' = { q with job_queue_mutex_ := none } ∧ pc' = none := by
  cases pc with
  | lock =>
      obtain ⟨m, hm, heq⟩ := Option.map_eq_some_iff.mp h
      obtain ⟨rfl, rfl⟩ := Prod.mk.inj heq
      obtain ⟨hfree, rfl⟩ := lock_eq_some.mp hm
      exact Or.inl ⟨rfl, hfree, rfl, rfl⟩
  | push =>
      obtain ⟨rfl, rfl⟩ := Prod.mk.inj (Option.some.inj h)
      exact Or.inr (Or.inl ⟨rfl, rfl, rfl⟩)
  | unlock =>
      obtain ⟨rfl, rfl⟩ := Prod.mk.inj (Option.some.inj h)
      exact Or.inr (Or.inr ⟨rfl, rfl, rfl⟩)

/-- What a step of `do_jobs` can do. -/
theorem ClosureQueue.do_jobs_cases {pc : DoJobs J} {pc' : Option (DoJobs J)}
    (h : q.do_jobs t pc = some (q', pc')) :
    (pc = .lock ∧ q.job_queue_mutex_ = none ∧ q' = { q with job_queue_mutex_ := some t } ∧
        pc' = some .take) ∨
      (pc = .take ∧ q.job_queue_ = [] ∧ q' = q ∧ pc' = some (.unlock none)) ∨
      (∃ job jobs, pc = .take ∧ q.job_queue_ = job :: jobs ∧
        q' = { q with job_queue_ := jobs } ∧ pc' = some (.unlock (some job))) ∨
      (∃ job, pc = .unlock job ∧ q' = { q with job_queue_mutex_ := none } ∧
        pc' = job.map .run) ∨
      (∃ job, pc = .run job ∧ q' = { q with ran := q.ran ++ [job] } ∧
        pc' = some (.delete job)) ∨
      ∃ job, pc = .delete job ∧ q' = { q with deleted := q.deleted ++ [job] } ∧
        pc' = some .lock := by
  cases pc with
  | lock =>
      obtain ⟨m, hm, heq⟩ := Option.map_eq_some_iff.mp h
      obtain ⟨rfl, rfl⟩ := Prod.mk.inj heq
      obtain ⟨hfree, rfl⟩ := lock_eq_some.mp hm
      exact Or.inl ⟨rfl, hfree, rfl, rfl⟩
  | take =>
      rcases hq : q.job_queue_ with _ | ⟨job, jobs⟩ <;> simp only [do_jobs, hq] at h <;>
        obtain ⟨rfl, rfl⟩ := Prod.mk.inj (Option.some.inj h)
      · exact Or.inr (Or.inl ⟨rfl, rfl, rfl, rfl⟩)
      · exact Or.inr (Or.inr (Or.inl ⟨job, jobs, rfl, rfl, rfl, rfl⟩))
  | unlock job =>
      obtain ⟨rfl, rfl⟩ := Prod.mk.inj (Option.some.inj h)
      exact Or.inr (Or.inr (Or.inr (Or.inl ⟨job, rfl, rfl, rfl⟩)))
  | run job =>
      obtain ⟨rfl, rfl⟩ := Prod.mk.inj (Option.some.inj h)
      exact Or.inr (Or.inr (Or.inr (Or.inr (Or.inl ⟨job, rfl, rfl, rfl⟩))))
  | delete job =>
      obtain ⟨rfl, rfl⟩ := Prod.mk.inj (Option.some.inj h)
      exact Or.inr (Or.inr (Or.inr (Or.inr (Or.inr ⟨job, rfl, rfl, rfl⟩))))

/-- `add_job` keeps the order, and runs and deletes nothing. -/
theorem ClosureQueue.add_job_order {job : J} {pc : AddJob} {pc' : Option AddJob}
    (h : q.add_job t job pc = some (q', pc')) (ha : q.pushed = q.ran ++ pending ++ q.job_queue_) :
    q'.pushed = q'.ran ++ pending ++ q'.job_queue_ ∧ q'.ran = q.ran ∧ q'.deleted = q.deleted := by
  rcases add_job_cases h with ⟨-, -, rfl, -⟩ | ⟨-, -, rfl⟩ | ⟨-, rfl, -⟩
  · exact ⟨ha, rfl, rfl⟩
  · exact ⟨by simp [ha], rfl, rfl⟩
  · exact ⟨ha, rfl, rfl⟩

/-- **`add_job`** keeps the account. -/
theorem ClosureQueue.add_job_account {job : J} {pc : AddJob} {pc' : Option AddJob}
    (h : q.add_job t job pc = some (q', pc')) (ha : q.Account pending spent) :
    q'.Account pending spent := by
  obtain ⟨hpushed, hran, hdeleted⟩ := q.add_job_order h ha.pushed
  exact ⟨hpushed, by rw [hran, hdeleted, ha.ran]⟩

/-- **`do_jobs` keeps the order**: it takes the jobs in the order in which they were pushed
and runs what it takes. -/
theorem ClosureQueue.do_jobs_order {pc : DoJobs J} {pc' : Option (DoJobs J)}
    (h : q.do_jobs t pc = some (q', pc')) (ha : q.pushed = q.ran ++ pc.pending ++ q.job_queue_) :
    q'.pushed = q'.ran ++ pc'.elim [] DoJobs.pending ++ q'.job_queue_ := by
  rcases do_jobs_cases h with ⟨rfl, -, rfl, rfl⟩ | ⟨rfl, -, rfl, rfl⟩ |
    ⟨job, jobs, rfl, hq, rfl, rfl⟩ | ⟨job, rfl, rfl, rfl⟩ | ⟨job, rfl, rfl, rfl⟩ |
    ⟨job, rfl, rfl, rfl⟩
  · exact ha
  · exact ha
  · simpa [DoJobs.pending, hq] using ha
  · cases job <;> exact ha
  · simpa [DoJobs.pending] using ha
  · exact ha

/-- `do_jobs` runs a job at one position only. -/
theorem ClosureQueue.do_jobs_ran {pc : DoJobs J} {pc' : Option (DoJobs J)}
    (h : q.do_jobs t pc = some (q', pc')) (hpc : ∀ job, pc ≠ .run job) : q'.ran = q.ran := by
  rcases do_jobs_cases h with ⟨-, -, rfl, -⟩ | ⟨-, -, rfl, -⟩ | ⟨-, -, -, -, rfl, -⟩ |
    ⟨-, -, rfl, -⟩ | ⟨job, hrun, -⟩ | ⟨-, -, rfl, -⟩
  case inr.inr.inr.inr.inl => exact absurd hrun (hpc job)
  all_goals rfl

/-- A job that `do_jobs` takes from the queue is in its hands until it is run. -/
theorem ClosureQueue.do_jobs_length {pc : DoJobs J} {pc' : Option (DoJobs J)}
    (h : q.do_jobs t pc = some (q', pc')) (hpc : ∀ job, pc ≠ .run job) :
    (pc'.elim [] DoJobs.pending).length + q'.job_queue_.length =
      pc.pending.length + q.job_queue_.length := by
  rcases do_jobs_cases h with ⟨rfl, -, rfl, rfl⟩ | ⟨rfl, -, rfl, rfl⟩ |
    ⟨job, jobs, rfl, hq, rfl, rfl⟩ | ⟨job, rfl, rfl, rfl⟩ | ⟨job, hrun, -⟩ | ⟨job, rfl, rfl, rfl⟩
  · rfl
  · rfl
  · simp only [hq, Option.elim, DoJobs.pending, List.length_cons, List.length_nil]
    omega
  · cases job <;> rfl
  · exact absurd hrun (hpc job)
  · rfl

/-- `do_jobs` deletes the jobs in the order in which it ran them. -/
theorem ClosureQueue.do_jobs_deleted {pc : DoJobs J} {pc' : Option (DoJobs J)}
    (h : q.do_jobs t pc = some (q', pc')) (ha : q.ran = q.deleted ++ pc.spent) :
    q'.ran = q'.deleted ++ pc'.elim [] DoJobs.spent := by
  rcases do_jobs_cases h with ⟨rfl, -, rfl, rfl⟩ | ⟨rfl, -, rfl, rfl⟩ |
    ⟨job, jobs, rfl, -, rfl, rfl⟩ | ⟨job, rfl, rfl, rfl⟩ | ⟨job, rfl, rfl, rfl⟩ |
    ⟨job, rfl, rfl, rfl⟩
  · exact ha
  · exact ha
  · exact ha
  · cases job <;> exact ha
  · simp [DoJobs.spent, ha]
  · simpa [DoJobs.spent] using ha

/-- **`do_jobs`** keeps the account. -/
theorem ClosureQueue.do_jobs_account {pc : DoJobs J} {pc' : Option (DoJobs J)}
    (h : q.do_jobs t pc = some (q', pc')) (ha : q.Account pc.pending pc.spent) :
    q'.Account (pc'.elim [] DoJobs.pending) (pc'.elim [] DoJobs.spent) :=
  ⟨q.do_jobs_order h ha.pushed, q.do_jobs_deleted h ha.ran⟩

/-- `do_jobs` pushes nothing, finds out that the queue is empty only when it is, and returns
only after that. -/
theorem ClosureQueue.do_jobs_queue {pc : DoJobs J} {pc' : Option (DoJobs J)}
    (h : q.do_jobs t pc = some (q', pc')) :
    q'.pushed = q.pushed ∧ (pc' = some (.unlock none) → q'.job_queue_ = []) ∧
      (pc' = none → pc = .unlock none ∧ q'.job_queue_ = q.job_queue_) := by
  rcases do_jobs_cases h with ⟨rfl, -, rfl, rfl⟩ | ⟨rfl, hq, rfl, rfl⟩ |
    ⟨job, jobs, rfl, -, rfl, rfl⟩ | ⟨_ | job, rfl, rfl, rfl⟩ | ⟨job, rfl, rfl, rfl⟩ |
    ⟨job, rfl, rfl, rfl⟩
  · exact ⟨rfl, by rintro ⟨⟩, by rintro ⟨⟩⟩
  · exact ⟨rfl, fun _ => hq, by rintro ⟨⟩⟩
  · exact ⟨rfl, by rintro ⟨⟩, by rintro ⟨⟩⟩
  · exact ⟨rfl, by rintro ⟨⟩, fun _ => ⟨rfl, rfl⟩⟩
  · exact ⟨rfl, by rintro ⟨⟩, by rintro ⟨⟩⟩
  · exact ⟨rfl, by rintro ⟨⟩, by rintro ⟨⟩⟩
  · exact ⟨rfl, by rintro ⟨⟩, by rintro ⟨⟩⟩

/-- `add_job` pushes the job it was given, and nothing else. -/
theorem ClosureQueue.add_job_queue {job : J} {pc : AddJob} {pc' : Option AddJob}
    (h : q.add_job t job pc = some (q', pc')) :
    pc = .push ∧ pc' = some .unlock ∧ q'.pushed = q.pushed ++ [job] ∧
        q'.job_queue_ = q.job_queue_ ++ [job] ∨
      q'.pushed = q.pushed ∧ q'.job_queue_ = q.job_queue_ ∧
        (pc = .unlock ∧ pc' = none ∨ pc = .lock ∧ pc' = some .push) := by
  rcases add_job_cases h with ⟨rfl, -, rfl, rfl⟩ | ⟨rfl, rfl, rfl⟩ | ⟨rfl, rfl, rfl⟩
  · exact Or.inr ⟨rfl, rfl, Or.inr ⟨rfl, rfl⟩⟩
  · exact Or.inl ⟨rfl, rfl, rfl, rfl⟩
  · exact Or.inr ⟨rfl, rfl, Or.inl ⟨rfl, rfl⟩⟩

end FreeJ
