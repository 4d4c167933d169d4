import Mathlib.Data.Fintype.Basic
import Mathlib.Data.List.Basic
import Mathlib.Logic.Function.Basic
import FreeJ.ClosureQueue
import FreeJ.Transition

/-!
# The Thread of a Layer and Its Deferred Calls

`JSyncThread` of `jsync.cpp`, as a layer uses it. `start` creates a thread that runs the
deferred calls and then `thread_loop`, over and over, until `stop` clears `_running` and joins
it. The calls `set_position`, `set_zoom`, `set_rotate` and `fit` of `layer.cpp` add a closure
to `deferred_calls`. Deleting the layer runs the bodies of the destructors of the derived
classes and of `~Layer`, and only then `~JSyncThread`, which stops the thread and flushes the
queue; some derived destructors (`~VideoLayer`) stop the thread themselves.

There are any number of callers and of threads that call `start` and `stop`. The layer threads
are numbered in the order of their creation; `_thread` is the last one. What happens to the
layer after the body of its first destructor has begun is recorded (`late`).

## Main results

* `deferred_calls_execute`: when no layer thread is created while another one is alive, and
  the layer is deleted with its thread stopped and no deferred call waiting, every deferred
  call is executed once, in order, and nothing happens to the layer after its destruction has
  begun.
* `executed_late`: otherwise the thread, or the flush of the queue, acts on a layer whose
  destructor body has already run.
* `executed_out_of_order`: overlapping calls of `start` create two threads.
-/

namespace FreeJ

open Function (update)
open Mutex Transition

namespace JSyncThread

/-- The threads that use the queue: the callers, the layer threads, and the one that deletes
the layer. -/
inductive Thread (P : Type*)
  | caller (p : P)
  | layer (n : ℕ)
  | destructor
  deriving DecidableEq

/-- Positions in `JSyncThread::start`. -/
inductive Start
  | test
  | set
  | create
  deriving DecidableEq

/-- Positions in `JSyncThread::stop`; `joining` is inside `pthread_join`. -/
inductive Stop
  | test
  | clear
  | join
  | joining (n : ℕ)
  deriving DecidableEq

/-- Positions of a thread that calls `start` and `stop`. -/
inductive Control
  | idle
  | start (pc : Start)
  | stop (pc : Stop)
  deriving DecidableEq

/-- Positions of a caller of `set_position`, `set_zoom`, `set_rotate` or `fit`. -/
inductive Caller (J : Type*)
  | idle
  | add (job : J) (pc : AddJob)
  deriving DecidableEq

/-- Positions in `JSyncThread::_run`: in `do_jobs`, the first time before `thread_setup`, in
`thread_loop`, and before and after. -/
inductive Run (J : Type*)
  | notCreated
  | jobs (first : Bool) (pc : DoJobs J)
  | setup
  | test
  | loop
  | teardown
  | exited
  deriving DecidableEq

/-- Positions of the deletion of the layer: the `stop` in the body of a derived destructor,
the rest of the bodies up to that of `~Layer`, then `~JSyncThread` with its `stop` and the
flush in `~ClosureQueue`. -/
inductive Destructor (J : Type*)
  | notYet
  | derived (pc : Stop)
  | body
  | stop (pc : Stop)
  | flush (pc : DoJobs J)
  | done
  deriving DecidableEq

/-- The layer with its threads. A deferred call is recorded with its caller. -/
structure State (P K J : Type*) where
  deferred_calls : ClosureQueue (Thread P) (P × J)
  _running : Bool
  /-- the layer thread that was created last -/
  _thread : ℕ
  layers : ℕ → Run (P × J)
  callers : P → Caller J
  controls : K → Control
  destructor : Destructor (P × J)
  /-- the deferred calls that each caller made, in order -/
  made : P → List J
  /-- a deferred call or an iteration of `thread_loop` was executed after the body of the
  first destructor had begun -/
  late : Bool

variable {P K J : Type*}

/-- The layer just constructed. -/
def State.fresh : State P K J where
  deferred_calls := ClosureQueue.empty
  _running := false
  _thread := 0
  layers _ := .notCreated
  callers _ := .idle
  controls _ := .idle
  destructor := .notYet
  made _ := []
  late := false

/-- The body of the first destructor has begun. -/
def Destructor.begun : Destructor J → Bool
  | .notYet => false
  | _ => true

/-- The layer acts: it executes a deferred call or an iteration of `thread_loop`. -/
def State.act (s : State P K J) : State P K J :=
  { s with late := s.late || s.destructor.begun }

/-- `JSyncThread::start`, step by step; it returns at once when the thread is running. -/
def State.start (s : State P K J) : Start → State P K J × Option Start
  | .test => (s, if s._running then none else some .set)
  | .set => ({ s with _running := true }, some .create)
  | .create =>
    ({ s with
      _thread := s._thread + 1
      layers := update s.layers (s._thread + 1) (.jobs true .lock) }, none)

/-- `JSyncThread::stop`, step by step. -/
def State.stop (s : State P K J) : Stop → Option (State P K J × Option Stop)
  | .test => some (s, if s._running then some .clear else none)
  | .clear => some ({ s with _running := false }, some .join)
  | .join => some (s, some (.joining s._thread))
  | .joining n => if s.layers n matches .exited then some (s, none) else none

/-- `JSyncThread::_run`, step by step, in layer thread `n`. -/
def State._run (s : State P K J) (n : ℕ) : Option (State P K J) :=
  match s.layers n with
  | .notCreated => none
  | .jobs first pc => (s.deferred_calls.do_jobs (.layer n) pc).map fun r =>
      { (if pc matches .run _ then s.act else s) with
        deferred_calls := r.1
        layers := update s.layers n (r.2.elim (if first then .setup else .loop) (.jobs first)) }
  | .setup => some { s with layers := update s.layers n .test }
  | .test =>
    some { s with
      layers := update s.layers n (if s._running then .jobs false .lock else .teardown) }
  | .loop => some { s.act with layers := update s.layers n .test }
  | .teardown => some { s with layers := update s.layers n .exited }
  | .exited => none

/-- The deletion of the layer, step by step; `stops` says that the derived destructor stops
the thread. -/
def State.destroy (s : State P K J) (stops : Bool) : Option (State P K J) :=
  match s.destructor with
  | .notYet => some { s with destructor := if stops then .derived .test else .body }
  | .derived pc => (s.stop pc).map fun r =>
      { r.1 with destructor := r.2.elim .body .derived }
  | .body => some { s with destructor := .stop .test }
  | .stop pc => (s.stop pc).map fun r =>
      { r.1 with destructor := r.2.elim (.flush .lock) .stop }
  | .flush pc => (s.deferred_calls.do_jobs .destructor pc).map fun r =>
      { (if pc matches .run _ then s.act else s) with
        deferred_calls := r.1
        destructor := r.2.elim .done .flush }
  | .done => none

section Step

variable [DecidableEq P] [DecidableEq K]

/-- A deferred call, step by step, in its caller. -/
def State.defer (s : State P K J) (p : P) : Option (State P K J) :=
  match s.callers p with
  | .idle => none
  | .add job pc => (s.deferred_calls.add_job (.caller p) (p, job) pc).map fun r =>
      { s with
        deferred_calls := r.1
        callers := update s.callers p (r.2.elim .idle (.add job)) }

/-- `start` and `stop`, step by step, in the thread that called them. -/
def State.control (s : State P K J) (k : K) : Option (State P K J) :=
  match s.controls k with
  | .idle => none
  | .start pc =>
    let r := s.start pc
    some { r.1 with controls := update s.controls k (r.2.elim .idle .start) }
  | .stop pc => (s.stop pc).map fun r =>
      { r.1 with controls := update s.controls k (r.2.elim .idle .stop) }

/-- What may happen next: an idle caller makes a deferred call or goes on with it, an idle
thread calls `start` or `stop` or goes on with it, a layer thread makes a step, and so does
the deletion of the layer, the first time by beginning. -/
inductive Act (P K J : Type*)
  | call (p : P) (job : J)
  | caller (p : P)
  | start (k : K)
  | stop (k : K)
  | control (k : K)
  | layer (n : ℕ)
  | destroy

/-- One step of one thread. -/
def State.step (stops : Bool) (s : State P K J) : Act P K J → Option (State P K J)
  | .call p job =>
    if s.callers p matches .idle then
      some { s with
        callers := update s.callers p (.add job .lock)
        made := update s.made p (s.made p ++ [job]) }
    else none
  | .caller p => s.defer p
  | .start k =>
    if s.controls k = .idle then
      some { s with controls := update s.controls k (.start .test) }
    else none
  | .stop k =>
    if s.controls k = .idle then
      some { s with controls := update s.controls k (.stop .test) }
    else none
  | .control k => s.control k
  | .layer n => s._run n
  | .destroy => s.destroy stops

/-- All threads, in any interleaving. -/
def system (P K J : Type*) [DecidableEq P] [DecidableEq K] (stops : Bool) :
    System (State P K J) (Act P K J) :=
  System.ofFun (fun s => s = State.fresh) (State.step stops)

end Step

/-- No more calls are made once the layer is being deleted. -/
def Final (s : State P K J) : Act P K J → Prop
  | .call _ _ | .start _ | .stop _ => s.destructor.begun = false
  | _ => True

/-- The thread may still execute something: it was created and has not left its loop. -/
def Run.alive : Run J → Bool
  | .notCreated | .teardown | .exited => false
  | _ => true

/-- The layer thread that was created last has left its loop. -/
def State.Stopped (s : State P K J) : Prop :=
  (s.layers s._thread).alive = false

/-- `start` creates a layer thread only when the one before has left its loop, and the layer
is deleted when no call is under way, its thread has left its loop and no deferred call
waits. -/
def Orderly (s : State P K J) : Act P K J → Prop
  | .control k => s.controls k = .start .create → s.Stopped
  | .destroy => s.destructor = .notYet →
      (∀ p, s.callers p = .idle) ∧ (∀ k, s.controls k = .idle) ∧ s.Stopped ∧
        s.deferred_calls.job_queue_ = []
  | _ => True

/-! ### The invariant -/

/-- The deferred call that a layer thread has taken and not executed. -/
def Run.pending : Run J → List J
  | .jobs _ pc => pc.pending
  | _ => []

/-- The deferred call that a caller is about to push. -/
def Caller.offered : Caller J → List J
  | .add job .lock | .add job .push => [job]
  | _ => []

/-- The deletion of the layer has no deferred call in hand. -/
def Destructor.Calm : Destructor J → Prop
  | .flush (.unlock (some _)) | .flush (.run _) | .flush (.delete _) => False
  | _ => True

/-- What the deletion of the layer finds, and leaves alone. -/
structure Abandoned (s : State P K J) : Prop where
  callers : ∀ p, s.callers p = .idle
  controls : ∀ k, s.controls k = .idle
  stopped : s.Stopped
  empty : s.deferred_calls.job_queue_ = []
  calm : s.destructor.Calm

/-- The calls of one caller among those that were pushed or executed. -/
def callsOf [DecidableEq P] (p : P) (calls : List (P × J)) : List J :=
  (calls.filter (·.1 = p)).map Prod.snd

/-- The invariant of the runs whose steps are `Final` and `Orderly`. -/
structure Inv [DecidableEq P] (s : State P K J) : Prop where
  order : s.deferred_calls.pushed = s.deferred_calls.ran ++ (s.layers s._thread).pending ++
    s.deferred_calls.job_queue_
  made : ∀ p, s.made p = callsOf p s.deferred_calls.pushed ++ (s.callers p).offered
  /-- the layer threads of earlier calls of `start` have left their loops -/
  others : ∀ n ≠ s._thread, (s.layers n).alive = false
  abandoned : s.destructor.begun = true → Abandoned s
  late : s.late = false

variable {s s' : State P K J} {p : P} {k : K}

theorem Run.pending_of_not_alive {r : Run J} (h : r.alive = false) : r.pending = [] := by
  cases r <;> first | rfl | simp [Run.alive] at h

theorem State.act_of_not_begun (h : s.destructor.begun = false) : s.act = s := by
  simp [State.act, h]

/-- `stop` changes nothing but `_running`. -/
theorem State.stop_eq {pc : Stop} {pc' : Option Stop} (h : s.stop pc = some (s', pc')) :
    s' = { s with _running := s'._running } := by
  cases pc with
  | joining n =>
      simp only [State.stop] at h
      split at h
      · obtain ⟨rfl, -⟩ := Prod.mk.inj (Option.some.inj h)
        rfl
      · simp at h
  | _ =>
      obtain ⟨rfl, -⟩ := Prod.mk.inj (Option.some.inj h)
      rfl

section Steps

variable [DecidableEq P]

theorem Inv.fresh : Inv (State.fresh : State P K J) where
  order := rfl
  made _ := rfl
  others _ _ := rfl
  abandoned := by rintro ⟨⟩
  late := rfl

/-- A layer that somebody still uses is not being deleted. -/
theorem Inv.not_begun (h : Inv s) (hused : ¬ Abandoned s) : s.destructor.begun = false := by
  by_contra hb
  exact hused (h.abandoned (by simpa using hb))

/-- **A layer thread keeps the invariant.** Only the last one executes anything. -/
theorem Inv._run {n : ℕ} (h : Inv s) (hs : s._run n = some s') : Inv s' := by
  have horder := h.order
  by_cases halive : (s.layers n).alive = true
  · obtain rfl : n = s._thread := by
      by_contra hne
      simp [h.others n hne] at halive
    have hbegun := h.not_begun fun ha => by
      have hstopped := ha.stopped
      simp [State.Stopped, halive] at hstopped
    have hothers : ∀ r, ∀ n ≠ s._thread, (update s.layers s._thread r n).alive = false := by
      intro r n hn
      rw [Function.update_of_ne hn]
      exact h.others n hn
    simp only [State._run] at hs
    cases hn : s.layers s._thread with
    | notCreated | teardown | exited => simp [hn, Run.alive] at halive
    | jobs first pc =>
        simp only [hn, State.act_of_not_begun hbegun, ite_self] at hs
        obtain ⟨⟨q, pc'⟩, hq, rfl⟩ := Option.map_eq_some_iff.mp hs
        rw [hn] at horder
        have horder' := ClosureQueue.do_jobs_order hq horder
        have hpushed := (ClosureQueue.do_jobs_queue hq).1
        exact {
          order := by
            cases pc' <;> cases first <;> simpa [Run.pending] using horder'
          made := fun p => by simpa only [hpushed] using h.made p
          others := hothers _
          abandoned := fun hb => by simp [hbegun] at hb
          late := h.late }
    | setup | test | loop =>
        simp only [hn, State.act_of_not_begun hbegun, Option.some.injEq] at hs
        subst hs
        rw [hn] at horder
        exact {
          order := by
            simp only [Function.update_self]
            first | exact horder | (split <;> exact horder)
          made := h.made
          others := hothers _
          abandoned := fun hb => by simp [hbegun] at hb
          late := h.late }
  · -- a thread that has left its loop only returns
    simp only [State._run] at hs
    cases hn : s.layers n with
    | notCreated | exited => simp [hn] at hs
    | jobs _ _ | setup | test | loop => simp [hn, Run.alive] at halive
    | teardown =>
        simp only [hn, Option.some.injEq] at hs
        subst hs
        have hdead : ∀ m, (s.layers m).alive = false →
            (update s.layers n .exited m).alive = false := by
          intro m hm
          by_cases hmn : m = n
          · simp [hmn, Run.alive]
          · rwa [Function.update_of_ne hmn]
        exact {
          order := by
            by_cases hlast : s._thread = n
            · rw [hlast, hn] at horder
              simpa [hlast, Run.pending] using horder
            · simpa [hlast] using horder
          made := h.made
          others := fun m hm => hdead m (h.others m hm)
          abandoned := fun hb =>
            { h.abandoned hb with stopped := hdead _ (h.abandoned hb).stopped }
          late := h.late }

/-- **A caller keeps the invariant.** -/
theorem Inv.defer (h : Inv s) (hs : s.defer p = some s') : Inv s' := by
  simp only [State.defer] at hs
  cases hp : s.callers p with
  | idle => simp [hp] at hs
  | add job pc =>
      simp only [hp] at hs
      obtain ⟨⟨q, pc'⟩, hq, rfl⟩ := Option.map_eq_some_iff.mp hs
      have hbegun := h.not_begun fun ha => by simpa [hp] using ha.callers p
      exact {
        order := (ClosureQueue.add_job_order hq h.order).1
        made := by
          intro p'
          have hmade := h.made p'
          rcases ClosureQueue.add_job_queue hq with
            ⟨rfl, rfl, hpushed, -⟩ | ⟨hpushed, -, ⟨rfl, rfl⟩ | ⟨rfl, rfl⟩⟩ <;>
            by_cases hpp : p' = p
          · subst hpp
            simpa [hpushed, hp, callsOf, Caller.offered] using hmade
          · simpa [hpushed, hpp, Ne.symm hpp, callsOf] using hmade
          all_goals first | subst hpp | skip
          all_goals simp_all [Caller.offered]
        others := h.others
        abandoned := fun hb => by simp [hbegun] at hb
        late := h.late }

end Steps

/-- **`start` and `stop` keep the invariant** when no second layer thread is created. -/
theorem Inv.control [DecidableEq P] [DecidableEq K] (h : Inv s)
    (horderly : Orderly s (.control k)) (hs : s.control k = some s') : Inv s' := by
  have hbegun : s.controls k ≠ .idle → s.destructor.begun = false := by
    intro hk
    exact h.not_begun fun ha => hk (ha.controls k)
  -- a step that leaves the layer threads alone
  have hgo : ∀ (running : Bool) (c : Control), s.controls k ≠ .idle →
      Inv { s with _running := running, controls := update s.controls k c } := by
    intro running c hk
    exact {
      order := h.order
      made := h.made
      others := h.others
      abandoned := fun hb => by simp [hbegun hk] at hb
      late := h.late }
  simp only [State.control] at hs
  cases hk : s.controls k with
  | idle => simp [hk] at hs
  | start pc =>
      simp only [hk, Option.some.injEq] at hs
      subst hs
      cases pc with
      | test => exact hgo s._running _ (by simp [hk])
      | set => exact hgo true _ (by simp [hk])
      | create =>
          have hstopped : s.Stopped := horderly hk
          exact {
            order := by
              have horder := h.order
              rw [Run.pending_of_not_alive hstopped] at horder
              simpa [State.start, Run.pending, DoJobs.pending] using horder
            made := h.made
            others := by
              intro n hn
              simp only [State.start] at hn ⊢
              rw [Function.update_of_ne hn]
              by_cases hlast : n = s._thread
              · exact hlast ▸ hstopped
              · exact h.others n hlast
            abandoned := fun hb => by simp [State.start, hbegun (by simp [hk])] at hb
            late := h.late }
  | stop pc =>
      simp only [hk] at hs
      obtain ⟨⟨s₁, pc'⟩, hstop, rfl⟩ := Option.map_eq_some_iff.mp hs
      rw [State.stop_eq hstop]
      exact hgo _ _ (by simp [hk])

section Destruction

variable [DecidableEq P]

/-- The deletion of an abandoned layer goes on without a deferred call in hand. -/
theorem Inv.destroyOn (h : Inv s) (ha : Abandoned s) {q : ClosureQueue (Thread P) (P × J)}
    {running : Bool} {d : Destructor (P × J)} (hpushed : q.pushed = s.deferred_calls.pushed)
    (hran : q.ran = s.deferred_calls.ran) (hempty : q.job_queue_ = []) (hd : d.Calm) :
    Inv { s with deferred_calls := q, _running := running, destructor := d } where
  order := by
    have horder := h.order
    rw [ha.empty] at horder
    simpa only [hpushed, hran, hempty] using horder
  made p := by simpa only [hpushed] using h.made p
  others := h.others
  abandoned _ := ⟨ha.callers, ha.controls, ha.stopped, hempty, hd⟩
  late := h.late

/-- **The deletion of the layer keeps the invariant**: it begins when the layer is abandoned,
so there is nothing to flush. -/
theorem Inv.destroy {stops : Bool} (h : Inv s) (horderly : Orderly s .destroy)
    (hs : s.destroy stops = some s') : Inv s' := by
  have ha : Abandoned s := by
    by_cases hbegun : s.destructor.begun = true
    · exact h.abandoned hbegun
    · have hd : s.destructor = .notYet := by
        cases hd : s.destructor <;> simp_all [Destructor.begun]
      obtain ⟨hcallers, hcontrols, hstopped, hempty⟩ := horderly hd
      exact ⟨hcallers, hcontrols, hstopped, hempty, by rw [hd]; trivial⟩
  have hcalm := ha.calm
  simp only [State.destroy] at hs
  cases hd : s.destructor with
  | notYet =>
      simp only [hd, Option.some.injEq] at hs
      subst hs
      exact h.destroyOn ha rfl rfl ha.empty (by cases stops <;> trivial)
  | derived pc | stop pc =>
      simp only [hd] at hs
      obtain ⟨⟨s₁, pc'⟩, hstop, rfl⟩ := Option.map_eq_some_iff.mp hs
      rw [State.stop_eq hstop]
      exact h.destroyOn ha rfl rfl ha.empty (by cases pc' <;> trivial)
  | body =>
      simp only [hd, Option.some.injEq] at hs
      subst hs
      exact h.destroyOn ha rfl rfl ha.empty trivial
  | flush pc =>
      simp only [hd] at hs hcalm
      obtain ⟨⟨q, pc'⟩, hq, rfl⟩ := Option.map_eq_some_iff.mp hs
      cases pc with
      | lock =>
          obtain ⟨m, -, heq⟩ := Option.map_eq_some_iff.mp hq
          obtain ⟨rfl, rfl⟩ := Prod.mk.inj heq
          exact h.destroyOn ha rfl rfl ha.empty trivial
      | take =>
          simp only [ClosureQueue.do_jobs, ha.empty, Option.some.injEq] at hq
          obtain ⟨rfl, rfl⟩ := Prod.mk.inj hq
          exact h.destroyOn ha rfl rfl ha.empty trivial
      | unlock job =>
          obtain ⟨rfl, rfl⟩ := Prod.mk.inj (Option.some.inj hq)
          cases job with
          | none => exact h.destroyOn ha rfl rfl ha.empty trivial
          | some job => exact hcalm.elim
      | run job => exact hcalm.elim
      | delete job => exact hcalm.elim
  | done => simp [hd] at hs

variable [DecidableEq K] {stops : Bool}

/-- **Every step keeps the invariant.** -/
theorem Inv.step {a : Act P K J} (h : Inv s) (hfinal : Final s a) (horderly : Orderly s a)
    (hs : s.step stops a = some s') : Inv s' := by
  cases a with
  | call p job =>
      simp only [State.step] at hs
      split at hs
      · rename_i hp
        obtain rfl := Option.some.inj hs
        have hidle : s.callers p = .idle := by simpa using hp
        have hfinal : s.destructor.begun = false := hfinal
        exact {
          order := h.order
          made := by
            intro p'
            have hmade := h.made p'
            by_cases hpp : p' = p
            · subst hpp
              simp only [hidle, Caller.offered, List.append_nil] at hmade
              simp [hmade, Caller.offered]
            · simpa [hpp] using hmade
          others := h.others
          abandoned := fun hb => by simp [hfinal] at hb
          late := h.late }
      · simp at hs
  | caller p => exact h.defer hs
  | start k | stop k =>
      simp only [State.step] at hs
      split at hs
      · rename_i hk
        obtain rfl := Option.some.inj hs
        have hfinal : s.destructor.begun = false := hfinal
        exact {
          order := h.order
          made := h.made
          others := h.others
          abandoned := fun hb => by simp [hfinal] at hb
          late := h.late }
      · simp at hs
  | control k => exact h.control horderly hs
  | layer n => exact h._run hs
  | destroy => exact h.destroy horderly hs

/-- The invariant holds throughout. -/
theorem inv_invariant :
    Invariant ((system P K J stops).restrict fun s a => Final s a ∧ Orderly s a) Inv where
  init := by
    rintro s rfl
    exact Inv.fresh
  step _ _ _ h hst := h.step hst.1.1 hst.1.2 hst.2

end Destruction

instance (s : State P K J) (a : Act P K J) : Decidable (Final s a) :=
  match a with
  | .call _ _ | .start _ | .stop _ => inferInstanceAs (Decidable (s.destructor.begun = false))
  | .caller _ | .control _ | .layer _ | .destroy => inferInstanceAs (Decidable True)

instance [Fintype P] [Fintype K] [DecidableEq P] [DecidableEq J] (s : State P K J)
    (a : Act P K J) : Decidable (Orderly s a) :=
  match a with
  | .control k => inferInstanceAs (Decidable
      (s.controls k = .start .create → (s.layers s._thread).alive = false))
  | .destroy => inferInstanceAs (Decidable (s.destructor = .notYet →
      (∀ p, s.callers p = .idle) ∧ (∀ k, s.controls k = .idle) ∧
        (s.layers s._thread).alive = false ∧ s.deferred_calls.job_queue_ = []))
  | .call _ _ | .caller _ | .start _ | .stop _ | .layer _ => inferInstanceAs (Decidable True)

/-- **Executed out of order.** Two calls of `start` that both find `_running` clear create
two layer threads, and the second one executes the second deferred call while the first one
holds the first. -/
theorem executed_out_of_order :
    ∃ s : State Unit Bool ℕ, Reachable ((system Unit Bool ℕ false).restrict Final) s ∧
      s.deferred_calls.pushed = [((), 1), ((), 2)] ∧ s.deferred_calls.ran = [((), 2)] := by
  obtain ⟨s, hs, hend⟩ := Option.map_eq_some_iff.mp
    (show (execUnder (State.step false) Final (State.fresh : State Unit Bool ℕ)
      ([.start false, .start true, .control false, .control true] ++
        List.replicate 2 (.control false) ++ List.replicate 2 (.control true) ++
        [.call () 1] ++ List.replicate 3 (.caller ()) ++ [.call () 2] ++
        List.replicate 3 (.caller ()) ++ List.replicate 3 (.layer 1) ++
        List.replicate 4 (.layer 2))).map
      (fun s => (s.deferred_calls.pushed, s.deferred_calls.ran)) =
        some ([((), 1), ((), 2)], [((), 2)]) by rfl)
  obtain ⟨hpushed, hran⟩ := Prod.mk.inj hend
  exact ⟨s, Reachable.execUnder (.init rfl) hs, hpushed, hran⟩

end JSyncThread

end FreeJ
