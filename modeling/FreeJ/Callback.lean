import Mathlib.Algebra.BigOperators.Group.Finset.Piecewise
import Mathlib.Algebra.Order.BigOperators.Group.Finset
import Mathlib.Data.Fintype.BigOperators
import FreeJ.ClosureQueue
import FreeJ.DumbCall
import FreeJ.Transition

/-!
# Callbacks and the Lifetime of Their Calls

`DumbCallback` of `callback.cpp`: a callback notifies each of its calls by enqueuing the call
and giving its dispatcher, a `ThreadedClosureQueue`, a closure that runs `DumbCall::notify`.

The model follows one call through any number of callbacks, each with a dispatcher, and any
number of threads, each of which runs `DumbCallback::notify` or the jobs of a dispatcher. The
signal of `ThreadedClosureQueue::add_job` and the wait of the dispatcher touch nothing of the
call, and neither do the closures of other calls. The call is destroyed once, by a user who
keeps the promise of `Removed`.

## Main results

* `State.outstanding`: the notifications that were enqueued and not yet dequeued.
* `call_lifetime`: when the destructor gets through the gate only while nobody is inside a
  critical section of the count, the count and the gate are right, the destructor waits for
  all notifications, and nothing is touched too late.
* `not_finished_of_not_settled`: otherwise it does not wait for all notifications.
* `touched_late`: `dequeue` opens the gate before it lets go of the count's mutex, so the
  destructor may destroy that mutex first.
-/

namespace FreeJ

open Function (update)
open Mutex Transition

namespace DumbCallback

/-- Positions of a thread: in `DumbCallback::notify` of the callback `b`, or in `do_jobs` of
its dispatcher, where it runs `DumbCall::notify`. -/
inductive Pos (B : Type*)
  | idle
  | enqueue (b : B) (pc : Enqueue)
  | add (b : B) (pc : AddJob)
  | jobs (b : B) (pc : DoJobs Unit)
  | callback (b : B)
  | dequeue (b : B) (pc : Dequeue)
  deriving DecidableEq

/-- The call, the callbacks and the threads. -/
structure State (T B : Type*) where
  call : DumbCall T
  /-- the call is in the `calls_` of the callback -/
  calls_ : B → Bool
  /-- the closures of the call in the dispatcher of the callback -/
  dispatcher_ : B → ClosureQueue T Unit
  threads : T → Pos B

variable {T B : Type*}

/-- The call just constructed. -/
def State.fresh : State T B where
  call := DumbCall.fresh
  calls_ _ := false
  dispatcher_ _ := ClosureQueue.empty
  threads _ := .idle

/-- The thread is inside the critical section of the count. -/
def Pos.Inside : Pos B → Prop
  | .enqueue _ pc => pc.Inside
  | .dequeue _ pc => pc.Inside
  | _ => False

/-- The thread is in `DumbCall::enqueue`. -/
def Pos.enqueuing : Pos B → Bool
  | .enqueue _ _ => true
  | _ => false

section Step

variable [DecidableEq T] [DecidableEq B]

/-- One step of a thread inside `DumbCallback::notify` or `do_jobs`. -/
def State.run (s : State T B) (t : T) : Option (State T B) :=
  match s.threads t with
  | .idle => none
  | .enqueue b pc => (s.call.enqueue t pc).map fun r =>
      { s with
        call := r.1
        threads := update s.threads t (r.2.elim (.add b .lock) (.enqueue b)) }
  | .add b pc => ((s.dispatcher_ b).add_job t () pc).map fun r =>
      { s with
        dispatcher_ := update s.dispatcher_ b r.1
        threads := update s.threads t (r.2.elim .idle (.add b)) }
  | .jobs b (.run job) => ((s.dispatcher_ b).do_jobs t (.run job)).map fun r =>
      { s with
        dispatcher_ := update s.dispatcher_ b r.1
        threads := update s.threads t (.callback b) }
  | .jobs b pc => ((s.dispatcher_ b).do_jobs t pc).map fun r =>
      { s with
        dispatcher_ := update s.dispatcher_ b r.1
        threads := update s.threads t (r.2.elim .idle (.jobs b)) }
  | .callback b =>
    some { s with call := s.call.touch .plain, threads := update s.threads t (.dequeue b .lock) }
  | .dequeue b pc => (s.call.dequeue t pc).map fun r =>
      { s with
        call := r.1
        threads := update s.threads t (r.2.elim (.jobs b (.delete ())) (.dequeue b)) }

/-- What may happen next: `add_call` and `rem_call` of a callback, an idle thread that starts
to notify or to run the jobs of a dispatcher, a step of a thread, a step of `~DumbCall`. -/
inductive Act (T B : Type*)
  | add_call (b : B)
  | rem_call (b : B)
  | notify (t : T) (b : B)
  | dispatch (t : T) (b : B)
  | run (t : T)
  | destroy

/-- One step. A callback that does not have the call has nothing to notify here. -/
def State.step (s : State T B) : Act T B → Option (State T B)
  | .add_call b => some { s with calls_ := update s.calls_ b true }
  | .rem_call b => some { s with calls_ := update s.calls_ b false }
  | .notify t b =>
    if s.threads t = .idle ∧ s.calls_ b = true then
      some { s with threads := update s.threads t (.enqueue b .lock) }
    else none
  | .dispatch t b =>
    if s.threads t = .idle then
      some { s with threads := update s.threads t (.jobs b .lock) }
    else none
  | .run t => s.run t
  | .destroy => s.call.destroy.map fun c => { s with call := c }

/-- Threads, callbacks and destructor, in any interleaving. -/
def system (T B : Type*) [DecidableEq T] [DecidableEq B] : System (State T B) (Act T B) :=
  System.ofFun (fun s => s = State.fresh) State.step

end Step

/-- The destruction begins after `rem_call` from every callback, so that no `enqueue` can
follow. -/
def Removed (s : State T B) : Act T B → Prop
  | .add_call _ => s.call.destructor = .notYet
  | .destroy => s.call.destructor = .notYet →
      (∀ b, s.calls_ b = false) ∧ ∀ t, (s.threads t).enqueuing = false
  | _ => True

/-- The destructor gets through the gate only while nobody is inside a critical section of
the count. -/
def Settled (s : State T B) : Act T B → Prop
  | .destroy => s.call.destructor = .lock → s.call.refcount_mutex_ = none
  | _ => True

/-! ### The notifications under way -/

/-- The notifications that a thread has enqueued and not pushed, or taken from a dispatcher
and not dequeued. -/
def Pos.carries : Pos B → ℤ
  | .enqueue _ pc => pc.carries
  | .add _ .lock | .add _ .push => 1
  | .jobs _ pc => pc.pending.length
  | .callback _ => 1
  | .dequeue _ pc => pc.carries
  | _ => 0

/-- A thread is between the start of `enqueue` and the end of `add_job`'s push, or between
taking the closure from the queue and the end of `dequeue`. -/
def Pos.Notifying : Pos B → Prop
  | .enqueue _ _ | .add _ .lock | .add _ .push | .callback _ | .dequeue _ _ => True
  | .jobs _ pc => pc.pending ≠ []
  | _ => False

section Outstanding

variable [Fintype T] [Fintype B]

/-- The number of notifications that were enqueued and have not yet dequeued: in the hands
of a thread, or in the queue of a dispatcher. -/
def State.outstanding (s : State T B) : ℤ :=
  ∑ t, (s.threads t).carries + ∑ b, ((s.dispatcher_ b).job_queue_.length : ℤ)

end Outstanding

/-- Every notification has finished. -/
def State.Finished (s : State T B) : Prop :=
  (∀ t, ¬ (s.threads t).Notifying) ∧ ∀ b, (s.dispatcher_ b).job_queue_ = []

theorem Pos.Inside.notifying {p : Pos B} (h : p.Inside) : p.Notifying := by
  cases p <;> first | exact h.elim | trivial

theorem Pos.carries_nonneg (p : Pos B) : 0 ≤ p.carries := by
  rcases p with _ | ⟨b, _ | _⟩ | ⟨b, _ | _⟩ | _ | _ | ⟨b, _ | _⟩ <;>
    simp [Pos.carries, Enqueue.carries, Dequeue.carries]

/-- A sum over all indices, after one of them was updated. -/
theorem sum_update {ι α : Type*} [Fintype ι] [DecidableEq ι] (f : ι → α) (c : α → ℤ) (i : ι)
    (x : α) : ∑ j, c (update f i x j) = ∑ j, c (f j) + (c x - c (f i)) := by
  have hold : ∑ j, c (f j) = c (f i) + ∑ j ∈ Finset.univ.erase i, c (f j) :=
    (Finset.add_sum_erase _ _ (Finset.mem_univ i)).symm
  have hnew : ∑ j, c (update f i x j) = c x + ∑ j ∈ Finset.univ.erase i, c (f j) := by
    rw [← Finset.add_sum_erase _ _ (Finset.mem_univ i), Function.update_self]
    congr 1
    refine Finset.sum_congr rfl fun j hj => ?_
    rw [Function.update_of_ne (Finset.ne_of_mem_erase hj)]
  omega

/-! ### The invariant -/

/-- What the gate looks like to a thread inside a critical section. -/
def Pos.At (c : DumbCall T) : Pos B → Prop
  | .enqueue _ pc => c.EnqueueAt pc
  | .dequeue _ pc => c.DequeueAt pc
  | _ => True

/-- The invariant of the runs whose steps are `Removed` and `Settled`. -/
structure Inv [Fintype T] [Fintype B] (s : State T B) : Prop where
  mutex : Guards s.call.refcount_mutex_ fun t => (s.threads t).Inside
  count : s.call.refcount_ = s.outstanding
  inside : s.call.destructor.passed = false →
    ∀ t, (s.threads t).Inside → (s.threads t).At s.call
  gate : s.call.destructor.passed = false →
    (∀ t, ¬ (s.threads t).Inside) → s.call.Balanced
  /-- no thread enqueues once the destruction has begun -/
  quiet : s.call.destructor ≠ .notYet →
    (∀ b, s.calls_ b = false) ∧ ∀ t, (s.threads t).enqueuing = false
  passed : s.call.destructor.passed = true →
    s.outstanding = 0 ∧ ∀ t, ¬ (s.threads t).Inside
  late : s.call.late = false

section Invariant

variable [Fintype T] [Fintype B] {s s' : State T B} {t : T} {b : B} {p : Pos B}
  {c : DumbCall T}

theorem Inv.fresh : Inv (State.fresh : State T B) where
  mutex t := by simp [State.fresh, Pos.Inside, DumbCall.fresh]
  count := by
    simp [State.fresh, State.outstanding, Pos.carries, DumbCall.fresh, ClosureQueue.empty]
  inside _ _ ht := ht.elim
  gate _ _ := iff_of_false (by simp [State.fresh, DumbCall.fresh])
    (by simp [State.fresh, DumbCall.fresh])
  quiet _ := ⟨fun _ => rfl, fun _ => rfl⟩
  passed := by rintro ⟨⟩
  late := rfl

/-- The notifications in the hands of one thread, or in one queue, are among those under
way. -/
theorem State.le_outstanding (s : State T B) :
    (∀ t, (s.threads t).carries ≤ s.outstanding) ∧
      ∀ b, ((s.dispatcher_ b).job_queue_.length : ℤ) ≤ s.outstanding := by
  have hthreads : 0 ≤ ∑ t, (s.threads t).carries :=
    Finset.sum_nonneg fun t _ => (s.threads t).carries_nonneg
  have hqueues : 0 ≤ ∑ b, ((s.dispatcher_ b).job_queue_.length : ℤ) :=
    Finset.sum_nonneg fun b _ => Int.natCast_nonneg _
  constructor
  · intro t
    have ht : (s.threads t).carries ≤ ∑ t, (s.threads t).carries :=
      Finset.single_le_sum (fun t _ => (s.threads t).carries_nonneg) (Finset.mem_univ t)
    simp only [State.outstanding]
    omega
  · intro b
    have hb : ((s.dispatcher_ b).job_queue_.length : ℤ) ≤
        ∑ b, ((s.dispatcher_ b).job_queue_.length : ℤ) :=
      Finset.single_le_sum (fun b _ => Int.natCast_nonneg _) (Finset.mem_univ b)
    simp only [State.outstanding]
    omega

theorem State.outstanding_nonneg (s : State T B) : 0 ≤ s.outstanding :=
  add_nonneg (Finset.sum_nonneg fun t _ => (s.threads t).carries_nonneg)
    (Finset.sum_nonneg fun _ _ => Int.natCast_nonneg _)

/-- A destructor that is through the gate has waited for all notifications. -/
theorem Inv.finished (h : Inv s) (hp : s.call.destructor.passed = true) : s.Finished := by
  obtain ⟨hzero, hout⟩ := h.passed hp
  have hstarted : s.call.destructor ≠ .notYet := by
    intro hd
    simp [hd, DumbCall.Destructor.passed] at hp
  obtain ⟨hthreads, hqueues⟩ := s.le_outstanding
  constructor
  · intro t hnot
    have hcarries := hthreads t
    rw [hzero] at hcarries
    rcases ht : s.threads t with _ | ⟨b, pc⟩ | ⟨b, _ | _⟩ | ⟨b, pc⟩ | b | ⟨b, pc⟩ <;>
      rw [ht] at hnot hcarries
    · exact hnot
    · simpa [ht, Pos.enqueuing] using (h.quiet hstarted).2 t
    · simp [Pos.carries] at hcarries
    · simp [Pos.carries] at hcarries
    · exact hnot
    · have hpos := List.length_pos_of_ne_nil hnot
      simp only [Pos.carries] at hcarries
      omega
    · simp [Pos.carries] at hcarries
    · cases pc with
      | lock => simp [Pos.carries, Dequeue.carries] at hcarries
      | _ => exact hout t (by rw [ht]; trivial)
  · intro b
    have hb := hqueues b
    rw [hzero] at hb
    exact List.length_eq_zero_iff.mp (by omega)

/-- A thread that has something to do with the call keeps the destructor at the gate. -/
theorem Inv.not_passed (h : Inv s) (ht : (s.threads t).Notifying) :
    s.call.destructor.passed = false := by
  by_contra hp
  exact (h.finished (by simpa using hp)).1 t ht

/-- Nobody else is inside while a thread is, or while the mutex is free. -/
theorem Inv.alone (h : Inv s) (ht : s.call.refcount_mutex_ = none ∨ (s.threads t).Inside) :
    ∀ t' ≠ t, ¬ (s.threads t').Inside := by
  intro t' hne hin
  rcases ht with hfree | ht
  · exact (hfree ▸ h.mutex).notMem_of_none hin
  · exact hne (h.mutex.unique hin ht)

/-! ### The steps keep the invariant -/

section Steps

variable [DecidableEq T]

/-- A thread goes on into, inside or out of a critical section of the count. -/
theorem Inv.goInside (h : Inv s) (hp : s.call.destructor.passed = false)
    (hd : c.destructor = s.call.destructor) (hlate : c.late = s.call.late)
    (hmutex : Guards c.refcount_mutex_ fun t' => (update s.threads t p t').Inside)
    (hcount : c.refcount_ - s.call.refcount_ = p.carries - (s.threads t).carries)
    (halone : ∀ t' ≠ t, ¬ (s.threads t').Inside) (hin : p.Inside → p.At c)
    (hout : ¬ p.Inside → c.Balanced)
    (hquiet : p.enqueuing = true → (s.threads t).enqueuing = true) :
    Inv { s with call := c, threads := update s.threads t p } where
  mutex := hmutex
  count := by
    have hthreads := sum_update s.threads Pos.carries t p
    have hold := h.count
    simp only [State.outstanding] at hold ⊢
    omega
  inside _ t' ht' := by
    by_cases htt : t' = t
    · subst htt
      simp only [Function.update_self] at ht' ⊢
      exact hin ht'
    · simp only [Function.update_of_ne htt] at ht'
      exact absurd ht' (halone t' htt)
  gate _ hnone := hout (by simpa using hnone t)
  quiet hne := by
    obtain ⟨hcalls, hthreads⟩ := h.quiet (hd ▸ hne)
    refine ⟨hcalls, fun t' => ?_⟩
    by_cases htt : t' = t
    · subst htt
      simpa [hthreads t'] using hquiet
    · simpa [htt] using hthreads t'
  passed hpassed := by
    simp only [hd, hp] at hpassed
    cases hpassed
  late := hlate.trans h.late

/-- A thread goes on in `enqueue`, or has returned from it. -/
theorem Inv.enqueue {pc : Enqueue} {pc' : Option Enqueue} (h : Inv s)
    (ht : s.threads t = .enqueue b pc) (hc : s.call.enqueue t pc = some (c, pc')) :
    Inv { s with
      call := c, threads := update s.threads t (pc'.elim (.add b .lock) (.enqueue b)) } := by
  have hpos : 0 ≤ s.call.refcount_ := h.count ▸ s.outstanding_nonneg
  have hp := h.not_passed (t := t) (by rw [ht]; trivial)
  obtain ⟨hcount, hd, hlate⟩ := DumbCall.enqueue_counts hc hp
  have hsection : pc = .lock ∧ s.call.refcount_mutex_ = none ∨ (s.threads t).Inside := by
    rcases DumbCall.enqueue_cases hc with ⟨hpc, hfree, -⟩ | ⟨rfl, -⟩ | ⟨rfl, -⟩ | ⟨rfl, -⟩ |
      ⟨rfl, -⟩
    case inl => exact Or.inl ⟨hpc, hfree⟩
    all_goals exact Or.inr (by rw [ht]; trivial)
  have halone := h.alone (hsection.imp_left And.right)
  have hat : s.call.EnqueueAt pc := by
    rcases hsection with ⟨rfl, hfree⟩ | hin
    · exact h.gate hp fun t' => (hfree ▸ h.mutex).notMem_of_none
    · simpa [ht, Pos.At] using h.inside hp t hin
  have hat' := DumbCall.enqueue_at hc hat hpos
  refine h.goInside hp hd hlate (DumbCall.enqueue_guards hc h.mutex ?_ ?_ ?_) ?_ halone ?_ ?_ ?_
  · intro t' ht'
    rw [Function.update_of_ne ht']
  · rw [ht]
    rfl
  · cases pc' <;> simp [Pos.Inside]
  · rw [ht]
    cases pc' <;> simpa [Pos.carries] using hcount
  · cases pc' <;> simp_all [Pos.Inside, Pos.At]
  · cases pc' with
    | none => exact fun _ => hat'
    | some pc' =>
        intro hin
        cases pc' with
        | lock => exact hat'
        | _ => exact absurd trivial hin
  · simp [ht, Pos.enqueuing]

/-- A thread goes on in `dequeue`, or has returned from it. -/
theorem Inv.dequeue {pc : Dequeue} {pc' : Option Dequeue} (h : Inv s)
    (ht : s.threads t = .dequeue b pc) (hc : s.call.dequeue t pc = some (c, pc')) :
    Inv { s with
      call := c
      threads := update s.threads t (pc'.elim (.jobs b (.delete ())) (.dequeue b)) } := by
  have hpos : 0 ≤ s.call.refcount_ := h.count ▸ s.outstanding_nonneg
  have hp := h.not_passed (t := t) (by rw [ht]; trivial)
  obtain ⟨hcount, hd, hlate⟩ := DumbCall.dequeue_counts hc hp
  have hsection : pc = .lock ∧ s.call.refcount_mutex_ = none ∨ (s.threads t).Inside := by
    rcases DumbCall.dequeue_cases hc with ⟨hpc, hfree, -⟩ | ⟨rfl, -⟩ | ⟨rfl, -⟩ | ⟨rfl, -⟩ |
      ⟨rfl, -⟩
    case inl => exact Or.inl ⟨hpc, hfree⟩
    all_goals exact Or.inr (by rw [ht]; trivial)
  have halone := h.alone (hsection.imp_left And.right)
  have hat : s.call.DequeueAt pc := by
    rcases hsection with ⟨rfl, hfree⟩ | hin
    · exact h.gate hp fun t' => (hfree ▸ h.mutex).notMem_of_none
    · simpa [ht, Pos.At] using h.inside hp t hin
  have hat' := DumbCall.dequeue_at hc hat hpos fun hpc => by
    -- the notification that is being dequeued is still counted
    have hcarries := s.le_outstanding.1 t
    simp only [ht, hpc, Pos.carries, Dequeue.carries] at hcarries
    rw [h.count]
    omega
  refine h.goInside hp hd hlate (DumbCall.dequeue_guards hc h.mutex ?_ ?_ ?_) ?_ halone ?_ ?_ ?_
  · intro t' ht'
    rw [Function.update_of_ne ht']
  · rw [ht]
    rfl
  · cases pc' <;> simp [Pos.Inside]
  · rw [ht]
    cases pc' <;> simpa [Pos.carries, DoJobs.pending] using hcount
  · cases pc' <;> simp_all [Pos.Inside, Pos.At]
  · cases pc' with
    | none => exact fun _ => hat'
    | some pc' =>
        intro hin
        cases pc' with
        | lock => exact hat'
        | _ => exact absurd trivial hin
  · cases pc' <;> simp [Pos.enqueuing]

variable [DecidableEq B]

/-- What a step of one thread does to the notifications under way. -/
theorem State.outstanding_update (s : State T B) (c : DumbCall T) (q : ClosureQueue T Unit)
    (t : T) (b : B) (p : Pos B) :
    State.outstanding { s with
        call := c, dispatcher_ := update s.dispatcher_ b q, threads := update s.threads t p } =
      s.outstanding + (p.carries - (s.threads t).carries) +
        ((q.job_queue_.length : ℤ) - (s.dispatcher_ b).job_queue_.length) := by
  have hthreads := sum_update s.threads Pos.carries t p
  have hqueues := sum_update s.dispatcher_ (fun q => (q.job_queue_.length : ℤ)) b q
  simp only [State.outstanding]
  omega

/-- A thread goes on outside the critical sections of the count. -/
theorem Inv.goOn (h : Inv s) {q : ClosureQueue T Unit} (hout : ¬ (s.threads t).Inside)
    (hout' : ¬ p.Inside)
    (hcount : p.carries + q.job_queue_.length =
      (s.threads t).carries + (s.dispatcher_ b).job_queue_.length)
    (hquiet : p.enqueuing = true → s.call.destructor = .notYet) :
    Inv { s with
      dispatcher_ := update s.dispatcher_ b q, threads := update s.threads t p } := by
  have houtstanding := s.outstanding_update s.call q t b p
  have hinside : ∀ t', ((update s.threads t p t').Inside ↔ (s.threads t').Inside) := by
    intro t'
    by_cases htt : t' = t
    · subst htt
      simp [hout, hout']
    · simp [htt]
  exact {
    mutex := fun t' => (hinside t').trans (h.mutex t')
    count := by
      rw [h.count, houtstanding]
      omega
    inside := by
      intro hp t' ht'
      have hne : t' ≠ t := by
        rintro rfl
        exact hout ((hinside t').mp ht')
      simp only [Function.update_of_ne hne] at ht' ⊢
      exact h.inside hp t' ht'
    gate := fun hp hnone => h.gate hp fun t' ht' => hnone t' ((hinside t').mpr ht')
    quiet := by
      intro hd
      refine ⟨(h.quiet hd).1, fun t' => ?_⟩
      by_cases htt : t' = t
      · subst htt
        simpa using fun hp => hd (hquiet hp)
      · simpa [htt] using (h.quiet hd).2 t'
    passed := by
      intro hp
      obtain ⟨hzero, hnone⟩ := h.passed hp
      refine ⟨?_, fun t' ht' => hnone t' ((hinside t').mp ht')⟩
      rw [houtstanding]
      omega
    late := h.late }

/-- **A step of a thread keeps the invariant.** -/
theorem Inv.run (h : Inv s) (hs : s.run t = some s') : Inv s' := by
  simp only [State.run] at hs
  cases ht : s.threads t with
  | idle => simp [ht] at hs
  | enqueue b pc =>
      simp only [ht] at hs
      obtain ⟨⟨c, pc'⟩, hc, rfl⟩ := Option.map_eq_some_iff.mp hs
      exact h.enqueue ht hc
  | add b pc =>
      simp only [ht] at hs
      obtain ⟨⟨q, pc'⟩, hq, rfl⟩ := Option.map_eq_some_iff.mp hs
      refine h.goOn (b := b) (by rw [ht]; exact id) ?_ ?_ ?_
      · cases pc' <;> exact id
      · rw [ht]
        rcases ClosureQueue.add_job_queue hq with
          ⟨rfl, rfl, -, hlen⟩ | ⟨-, hlen, ⟨rfl, rfl⟩ | ⟨rfl, rfl⟩⟩ <;>
          simp [hlen, Pos.carries]
        omega
      · cases pc' <;> simp [Pos.enqueuing]
  | jobs b pc =>
      by_cases hrun : ∃ job, pc = .run job
      · obtain ⟨job, rfl⟩ := hrun
        simp only [ht, ClosureQueue.do_jobs, Option.map_some, Option.some.injEq] at hs
        subst hs
        refine h.goOn (b := b) (by rw [ht]; exact id) id ?_ (by rintro ⟨⟩)
        simp [ht, Pos.carries, DoJobs.pending]
      · have hstep : ((s.dispatcher_ b).do_jobs t pc).map (fun r =>
            { s with
              dispatcher_ := update s.dispatcher_ b r.1
              threads := update s.threads t (r.2.elim .idle (.jobs b)) }) = some s' := by
          cases pc <;> simp_all
        obtain ⟨⟨q, pc'⟩, hq, rfl⟩ := Option.map_eq_some_iff.mp hstep
        have hlen := ClosureQueue.do_jobs_length hq fun job hj => hrun ⟨job, hj⟩
        refine h.goOn (b := b) (by rw [ht]; exact id) ?_ ?_ ?_
        · cases pc' <;> exact id
        · rw [ht]
          cases pc' <;> simp only [Option.elim, Pos.carries, List.length_nil] at hlen ⊢ <;> omega
        · cases pc' <;> simp [Pos.enqueuing]
  | callback b =>
      simp only [ht, Option.some.injEq] at hs
      subst hs
      have hp := h.not_passed (t := t) (by rw [ht]; trivial)
      rw [DumbCall.touch_of_not_passed hp]
      have hgo := h.goOn (q := s.dispatcher_ b) (b := b) (p := .dequeue b .lock)
        (by rw [ht]; exact id) id (by simp [ht, Pos.carries, Dequeue.carries]) (by rintro ⟨⟩)
      simpa using hgo
  | dequeue b pc =>
      simp only [ht] at hs
      obtain ⟨⟨c, pc'⟩, hc, rfl⟩ := Option.map_eq_some_iff.mp hs
      exact h.dequeue ht hc

/-- **A step of the destructor keeps the invariant**: it gets through the gate when nothing is
counted. -/
theorem Inv.destroy (h : Inv s) (hremoved : Removed s .destroy) (hsettled : Settled s .destroy)
    (hs : s.step .destroy = some s') : Inv s' := by
  obtain ⟨c, hc, rfl⟩ := Option.map_eq_some_iff.mp hs
  have hstarted : ∀ d, s.call.destructor = d → d ≠ .notYet →
      (∀ b, s.calls_ b = false) ∧ ∀ t, (s.threads t).enqueuing = false := by
    rintro d rfl hne
    exact h.quiet hne
  have hover : ∀ d, s.call.destructor = d → d.passed = true →
      s.outstanding = 0 ∧ ∀ t, ¬ (s.threads t).Inside := by
    rintro d rfl hp
    exact h.passed hp
  simp only [DumbCall.destroy] at hc
  cases hd : s.call.destructor with
  | notYet =>
      simp only [hd, Option.some.injEq] at hc
      subst hc
      have hp : s.call.destructor.passed = false := by rw [hd]; rfl
      exact { h with
        inside := fun _ t ht => h.inside hp t ht
        gate := fun _ hnone => h.gate hp hnone
        quiet := fun _ => hremoved hd
        passed := (by rintro ⟨⟩) }
  | lock =>
      simp only [hd] at hc
      split at hc
      · simp at hc
      · rename_i hpending
        obtain rfl := Option.some.inj hc
        have hp : s.call.destructor.passed = false := by rw [hd]; rfl
        have hnone : ∀ t, ¬ (s.threads t).Inside := by
          intro t
          exact (hsettled hd ▸ h.mutex).notMem_of_none
        have hzero : s.call.refcount_ = 0 := by
          have hcounted : ¬ 0 < s.call.refcount_ := by
            intro hpos
            exact hpending ((h.gate hp hnone).mpr hpos)
          have hnonneg := h.count ▸ s.outstanding_nonneg
          omega
        exact { h with
          inside := by rintro ⟨⟩
          gate := by rintro ⟨⟩
          quiet := fun _ => hstarted _ hd (by rintro ⟨⟩)
          passed := fun _ => ⟨h.count.symm.trans hzero, hnone⟩ }
  | unlock | destroyPending | destroyRefcount =>
      simp only [hd, Option.some.injEq] at hc
      subst hc
      exact { h with
        inside := by rintro ⟨⟩
        gate := by rintro ⟨⟩
        quiet := fun _ => hstarted _ hd (by rintro ⟨⟩)
        passed := fun _ => hover _ hd rfl }
  | gone => simp [hd] at hc

/-- **Every step keeps the invariant.** -/
theorem Inv.step {a : Act T B} (h : Inv s) (hremoved : Removed s a) (hsettled : Settled s a)
    (hs : s.step a = some s') : Inv s' := by
  cases a with
  | add_call b =>
      obtain rfl := Option.some.inj hs
      exact { h with quiet := fun hd => absurd hremoved hd }
  | rem_call b =>
      obtain rfl := Option.some.inj hs
      refine { h with quiet := fun hd => ⟨fun b' => ?_, (h.quiet hd).2⟩ }
      by_cases hb : b' = b
      · simp [hb]
      · simpa [hb] using (h.quiet hd).1 b'
  | notify t b =>
      simp only [State.step] at hs
      split at hs
      · rename_i hidle
        obtain ⟨hidle, hcalls⟩ := hidle
        obtain rfl := Option.some.inj hs
        have hgo := h.goOn (q := s.dispatcher_ b) (b := b) (p := .enqueue b .lock)
          (by rw [hidle]; exact id) id (by simp [hidle, Pos.carries, Enqueue.carries])
          fun _ => by
            by_contra hd
            simp [(h.quiet hd).1 b] at hcalls
        simpa using hgo
      · simp at hs
  | dispatch t b =>
      simp only [State.step] at hs
      split at hs
      · rename_i hidle
        obtain rfl := Option.some.inj hs
        have hgo := h.goOn (q := s.dispatcher_ b) (b := b) (p := .jobs b .lock)
          (by rw [hidle]; exact id) id (by simp [hidle, Pos.carries, DoJobs.pending]) (by rintro ⟨⟩)
        simpa using hgo
      · simp at hs
  | run t => exact h.run hs
  | destroy => exact h.destroy hremoved hsettled hs

/-- The invariant holds throughout. -/
theorem inv_invariant :
    Invariant ((system T B).restrict fun s a => Removed s a ∧ Settled s a) Inv where
  init := by
    rintro s rfl
    exact Inv.fresh
  step _ _ _ h hst := h.step hst.1.1 hst.1.2 hst.2

/-- **The lifetime of a call.** In every run in which the destructor gets through the gate
only while nobody is inside a critical section of the count: until it does, whenever nobody is
inside, `pending_` is locked exactly when notifications are counted, and `refcount_` is the
number of those enqueued and not yet dequeued; it gets through the gate only when every
notification has finished; and nothing is touched after it was destroyed. -/
theorem call_lifetime
    (hr : Reachable ((system T B).restrict fun s a => Removed s a ∧ Settled s a) s) :
    (s.call.destructor.passed = false → (∀ t, ¬ (s.threads t).Inside) →
      (s.call.pending_ = true ↔ 0 < s.call.refcount_) ∧ s.call.refcount_ = s.outstanding) ∧
    (s.call.destructor.passed = true → s.Finished) ∧ s.call.late = false := by
  have h := inv_invariant.holds hr
  exact ⟨fun hp hnone => ⟨h.gate hp hnone, h.count⟩, h.finished, h.late⟩

/-- **The condition is needed**: a destructor that gets through the gate while somebody is
inside a critical section of the count has not waited for that notification. -/
theorem not_finished_of_not_settled {a : Act T B}
    (hr : Reachable ((system T B).restrict fun s a => Removed s a ∧ Settled s a) s)
    (hunsettled : ¬ Settled s a) (hs : s.step a = some s') :
    s'.call.destructor.passed = true ∧ ¬ s'.Finished := by
  have h := inv_invariant.holds hr
  cases a with
  | destroy =>
      obtain ⟨hd, hheld⟩ := Classical.not_imp.mp hunsettled
      obtain ⟨t, ht⟩ := Option.ne_none_iff_exists'.mp hheld
      obtain ⟨c, hc, rfl⟩ := Option.map_eq_some_iff.mp hs
      simp only [DumbCall.destroy, hd] at hc
      split at hc
      · simp at hc
      · obtain rfl := Option.some.inj hc
        refine ⟨rfl, fun hfinished => hfinished.1 t ?_⟩
        exact ((h.mutex t).mpr ht).notifying
  | _ => exact absurd trivial hunsettled

end Steps

end Invariant

instance [Fintype T] [Fintype B] (s : State T B) (a : Act T B) : Decidable (Removed s a) :=
  match a with
  | .add_call _ => inferInstanceAs (Decidable (s.call.destructor = .notYet))
  | .destroy => inferInstanceAs (Decidable (s.call.destructor = .notYet →
      (∀ b, s.calls_ b = false) ∧ ∀ t, (s.threads t).enqueuing = false))
  | .rem_call _ | .notify _ _ | .dispatch _ _ | .run _ => inferInstanceAs (Decidable True)

instance [DecidableEq T] (s : State T B) (a : Act T B) : Decidable (Settled s a) :=
  match a with
  | .destroy =>
    inferInstanceAs (Decidable (s.call.destructor = .lock → s.call.refcount_mutex_ = none))
  | .add_call _ | .rem_call _ | .notify _ _ | .dispatch _ _ | .run _ =>
    inferInstanceAs (Decidable True)

/-- A notification up to the push of its closure, by thread `false`, and the removal of the
call. -/
def notified : List (Act Bool Unit) :=
  [.add_call (), .notify false ()] ++ List.replicate 8 (.run false) ++ [.rem_call (), .destroy]

/-- The destructor waits for the notification that thread `true` runs. -/
theorem call_lifetime_once : ∃ s : State Bool Unit, s.call.destructor = .gone ∧ s.Finished ∧
    s.call.late = false := by
  obtain ⟨s, hs, hend⟩ := Option.map_eq_some_iff.mp
    (show (execUnder State.step (fun s a => Removed s a ∧ Settled s a)
      (State.fresh : State Bool Unit)
      (notified ++ [.dispatch true ()] ++ List.replicate 10 (.run true) ++
        List.replicate 4 .destroy)).map (fun s => s.call.destructor) = some .gone by rfl)
  have hr : Reachable ((system Bool Unit).restrict fun s a => Removed s a ∧ Settled s a) s :=
    Reachable.execUnder (.init rfl) hs
  obtain ⟨-, hfinished, hlate⟩ := call_lifetime hr
  exact ⟨s, hend, hfinished (by rw [hend]; rfl), hlate⟩

/-- **A mutex that is destroyed too early.** The thread that dequeues the last notification
has opened the gate and not yet unlocked `refcount_mutex_`: the destructor gets through the
gate although this notification has not finished, and destroys the mutex, which the thread
then unlocks. -/
theorem touched_late :
    (∃ s : State Bool Unit, Reachable ((system Bool Unit).restrict Removed) s ∧
      s.call.destructor.passed = true ∧ ¬ s.Finished) ∧
    ∃ s : State Bool Unit, Reachable ((system Bool Unit).restrict Removed) s ∧
      s.call.late = true := by
  have hrun : Reachable ((system Bool Unit).restrict Removed) State.fresh := .init rfl
  constructor
  · obtain ⟨s, hs, hend⟩ := Option.map_eq_some_iff.mp
      (show (execUnder State.step Removed (State.fresh : State Bool Unit)
        (notified ++ [.dispatch true ()] ++ List.replicate 9 (.run true) ++ [.destroy])).map
        (fun s => (s.call.destructor, s.threads true)) =
          some (.unlock, .dequeue () .unlock) by rfl)
    obtain ⟨hd, ht⟩ := Prod.mk.inj hend
    refine ⟨s, hrun.execUnder hs, by rw [hd]; rfl, fun hfinished => ?_⟩
    exact hfinished.1 true (by rw [ht]; trivial)
  · obtain ⟨s, hs, hend⟩ := Option.map_eq_some_iff.mp
      (show (execUnder State.step Removed (State.fresh : State Bool Unit)
        (notified ++ [.dispatch true ()] ++ List.replicate 9 (.run true) ++
          List.replicate 4 .destroy ++ [.run true])).map (fun s => s.call.late) = some true by rfl)
    exact ⟨s, hrun.execUnder hs, hend⟩

end DumbCallback

end FreeJ
