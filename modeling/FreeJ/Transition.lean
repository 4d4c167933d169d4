import Mathlib.Data.List.Induction

/-!
# Transition Systems and Their Runs

A `System` is a set of initial states with a labelled step relation; a state is
`Reachable` when some finite run of the system ends in it. The labels name what was
done, so that a run can be restricted to steps taken under a condition on the state and
the label (`System.restrict`): the reachable states of the restricted system are those
of the runs all of whose steps meet the condition.

## Main results

* `Invariant.holds`: what holds initially and is preserved by every step holds in every
  reachable state.
* `Reachable.exec`, `Reachable.execUnder`: executing a list of labels with a step function
  ends in a reachable state.
-/

namespace Transition

/-- Initial states and labelled steps. -/
structure System (σ α : Type*) where
  /-- The states a run may start from. -/
  init : σ → Prop
  /-- `step s a t`: doing `a` in state `s` may lead to `t`. -/
  step : σ → α → σ → Prop

variable {σ α : Type*} {S : System σ α} {C : σ → α → Prop} {I : σ → Prop}

/-- The states in which some finite run ends. -/
inductive Reachable (S : System σ α) : σ → Prop
  | init {s : σ} : S.init s → Reachable S s
  | step {s t : σ} {a : α} : Reachable S s → S.step s a t → Reachable S t

/-- The system whose steps are those taken under the condition `C`. -/
def System.restrict (S : System σ α) (C : σ → α → Prop) : System σ α where
  init := S.init
  step s a t := C s a ∧ S.step s a t

/-- What holds initially and is preserved by every step. -/
structure Invariant (S : System σ α) (I : σ → Prop) : Prop where
  init : ∀ s, S.init s → I s
  step : ∀ s a t, I s → S.step s a t → I t

/-- **An invariant holds in every reachable state.** -/
theorem Invariant.holds (h : Invariant S I) {s : σ} (hr : Reachable S s) : I s := by
  induction hr with
  | init h0 => exact h.init _ h0
  | step _ hst ih => exact h.step _ _ _ ih hst

/-- The runs of the restricted system are runs of the system. -/
theorem Reachable.of_restrict {s : σ} (h : Reachable (S.restrict C) s) : Reachable S s := by
  induction h with
  | init h0 => exact .init h0
  | step _ hst ih => exact ih.step hst.2

/-- The system of a step function: `f s a = none` when `a` is not enabled in `s`. -/
def System.ofFun (init : σ → Prop) (f : σ → α → Option σ) : System σ α where
  init := init
  step s a t := f s a = some t

/-- Execute a list of labels, stopping at the first that is not enabled. -/
def exec (f : σ → α → Option σ) : σ → List α → Option σ
  | s, [] => some s
  | s, a :: as => (f s a).bind fun t => exec f t as

theorem exec_append (f : σ → α → Option σ) (s : σ) (as bs : List α) :
    exec f s (as ++ bs) = (exec f s as).bind fun t => exec f t bs := by
  induction as generalizing s with
  | nil => rfl
  | cons a as ih =>
      simp only [List.cons_append, exec]
      cases f s a with
      | none => rfl
      | some t => exact ih t

/-- Executing one label more. -/
theorem exec_concat (f : σ → α → Option σ) (s : σ) (as : List α) (a : α) :
    exec f s (as ++ [a]) = (exec f s as).bind fun t => f t a := by
  rw [exec_append]
  refine congrArg _ (funext fun t => ?_)
  rw [exec]
  cases f t a <;> rfl

/-- A label of a list that is executed is enabled after those before it. -/
theorem exists_exec_concat {f : σ → α → Option σ} {s t u : σ} {as bs : List α} {a : α}
    (h : exec f s bs = some u) (hpre : as ++ [a] <+: bs) (ht : exec f s as = some t) :
    ∃ v, f t a = some v ∧ exec f s (as ++ [a]) = some v := by
  obtain ⟨cs, rfl⟩ := hpre
  rw [exec_append] at h
  obtain ⟨v, hv, -⟩ := Option.bind_eq_some_iff.mp h
  have hstep := hv
  rw [exec_concat, ht] at hstep
  exact ⟨v, hstep, hv⟩

/-- Executing a list of labels from a reachable state ends in a reachable state. -/
theorem Reachable.exec {init : σ → Prop} {f : σ → α → Option σ} {s t : σ} {as : List α}
    (h : Reachable (System.ofFun init f) s) (he : exec f s as = some t) :
    Reachable (System.ofFun init f) t := by
  induction as generalizing s with
  | nil => exact Option.some.inj he ▸ h
  | cons a as ih =>
      obtain ⟨u, hu, he⟩ := Option.bind_eq_some_iff.mp he
      exact ih (h.step hu) he

/-- Execute a list of labels, stopping at the first that is not enabled or does not meet the
condition `C`. -/
def execUnder (f : σ → α → Option σ) (C : σ → α → Prop) [∀ s a, Decidable (C s a)] :
    σ → List α → Option σ
  | s, [] => some s
  | s, a :: as => if C s a then (f s a).bind fun t => execUnder f C t as else none

/-- Executing a list of labels under a condition ends in a reachable state of the system
restricted to it. -/
theorem Reachable.execUnder {init : σ → Prop} {f : σ → α → Option σ}
    [∀ s a, Decidable (C s a)] {s t : σ} {as : List α}
    (h : Reachable ((System.ofFun init f).restrict C) s) (he : execUnder f C s as = some t) :
    Reachable ((System.ofFun init f).restrict C) t := by
  induction as generalizing s with
  | nil => exact Option.some.inj he ▸ h
  | cons a as ih =>
      simp only [Transition.execUnder] at he
      split at he
      · rename_i hc
        obtain ⟨u, hu, he⟩ := Option.bind_eq_some_iff.mp he
        exact ih (h.step ⟨hc, hu⟩) he
      · simp at he

/-! ### Throughout a list -/

/-- What holds of the empty list and, where it holds of a list, of its extensions by the
elements that `Q` admits and of no others, holds of all prefixes of a list whose elements
are admitted, and of no other list. -/
theorem prefixes_iff {P : List α → Prop} {Q : List α → α → Prop} (h0 : P [])
    (hstep : ∀ xs x, P xs → (P (xs ++ [x]) ↔ Q xs x)) (xs : List α) :
    (∀ ys, ys <+: xs → P ys) ↔ ∀ ys y, ys ++ [y] <+: xs → Q ys y := by
  constructor
  · intro h ys y hy
    have hP := h ys ((List.prefix_append ys [y]).trans hy)
    exact (hstep ys y hP).mp (h _ hy)
  · intro h ys
    induction ys using List.reverseRecOn with
    | nil => exact fun _ => h0
    | append_singleton ys y ih =>
        intro hy
        have hP := ih ((List.prefix_append ys [y]).trans hy)
        exact (hstep ys y hP).mpr (h ys y hy)

end Transition
