import Mathlib.Algebra.Order.Floor.Ring
import Mathlib.Algebra.Order.Field.Basic
import Mathlib.Data.Rat.Floor
import Mathlib.Order.Interval.Set.UnorderedInterval

/-!
# Iterators

`iterator.cpp`. An iterator moves a value of a layer towards an aim, a step at each call of
`cafudda`, which returns -1 when the iterator is through. What happens at the aim depends on
its mode. Arithmetic is that of an ordered field, without rounding.

## Main results

* `Iterator.cafudda_inRange`, `Iterator.cafudda_mem_uIcc`: a call keeps the value in its range,
  and between where it was and the aim.
* `Iterator.exists_runs_aim`: the aim is reached after as many calls as there are steps to it.
* `iterator_converges`: in which modes the calls come to an end, and where.
-/

namespace FreeJ

/-- `iterator_mode_t` -/
inductive IteratorMode
  | ONCE
  | LOOP
  | BOUNCE
  | PULSE
  deriving DecidableEq, Repr

/-- `Iterator`, without the value it points to. -/
structure Iterator (K : Type*) where
  saved_value : K
  min : K
  max : K
  aim : K
  step : K
  mode : IteratorMode

variable {K : Type*} [Field K] [LinearOrder K]

/-- `Iterator::Iterator`; `saved_value` is not initialised. -/
def Iterator.new (value saved : K) : Iterator K where
  saved_value := saved
  aim := value
  max := value + 0xff
  min := value - 0xff
  step := 1
  mode := .ONCE

/-- `Iterator::set_mode` -/
def Iterator.set_mode (it : Iterator K) (m : IteratorMode) (value : K) : Iterator K :=
  match m with
  | .PULSE => { it with saved_value := value, mode := .PULSE }
  | m => { it with mode := m }

/-- `Iterator::cafudda`: what it returns, the iterator and the value it leaves behind. -/
def Iterator.cafudda (it : Iterator K) (value : K) : ℤ × Iterator K × K :=
  if it.aim ≠ value then
    if it.aim > value then -- we must increase
      (1, it, if value + it.step > it.aim then it.aim else value + it.step)
    else -- we decrease
      (1, it, if value - it.step < it.aim then it.aim else value - it.step)
  else -- goal is reached
    match it.mode with
    | .ONCE => (-1, it, value)
    | .LOOP => (1, it, if it.aim = it.max then it.min else it.max)
    | .BOUNCE => (1, { it with aim := if value ≥ it.max then it.min else it.max }, value)
    | .PULSE =>
        if it.aim ≠ it.saved_value then (1, { it with aim := it.saved_value }, value)
        else (-1, it, value)

/-- The iterator and its value after a call. -/
def Iterator.call (s : Iterator K × K) : Iterator K × K := (s.1.cafudda s.2).2

/-- The iterator and its value after `n` calls. -/
def Iterator.calls (n : ℕ) (s : Iterator K × K) : Iterator K × K := Iterator.call^[n] s

/-- What the call after the first `n` returns. -/
def Iterator.result (n : ℕ) (s : Iterator K × K) : ℤ :=
  ((Iterator.calls n s).1.cafudda (Iterator.calls n s).2).1

/-- The step is positive, and the value and what it may aim at are in the range. -/
structure Iterator.InRange (it : Iterator K) (value : K) : Prop where
  step_pos : 0 < it.step
  value_mem : value ∈ Set.Icc it.min it.max
  aim_mem : it.aim ∈ Set.Icc it.min it.max
  saved_mem : it.mode = .PULSE → it.saved_value ∈ Set.Icc it.min it.max

namespace Iterator

variable {it : Iterator K} {value : K}

/-! ### One call -/

/-- Away from the aim a call changes nothing but the value. -/
theorem cafudda_of_ne (hne : it.aim ≠ value) :
    it.cafudda value = (1, it, (it.cafudda value).2.2) := by
  unfold cafudda
  rw [if_pos hne]
  split_ifs <;> rfl

theorem cafudda_of_lt (hlt : value < it.aim) :
    (it.cafudda value).2.2 = Min.min (value + it.step) it.aim := by
  unfold cafudda
  rw [if_pos hlt.ne', if_pos hlt]
  split_ifs with h
  · exact (min_eq_right h.le).symm
  · exact (min_eq_left (not_lt.1 h)).symm

theorem cafudda_of_gt (hgt : it.aim < value) :
    (it.cafudda value).2.2 = Max.max (value - it.step) it.aim := by
  unfold cafudda
  rw [if_pos hgt.ne, if_neg hgt.not_gt]
  split_ifs with h
  · exact (max_eq_right h.le).symm
  · exact (max_eq_left (not_lt.1 h)).symm

variable [IsStrictOrderedRing K]

/-- A call moves the value towards the aim and not past it, but for the jump of a loop. -/
theorem cafudda_mem_uIcc (hstep : 0 < it.step) (hloop : it.mode = .LOOP → it.aim ≠ value) :
    (it.cafudda value).2.2 ∈ Set.uIcc value it.aim := by
  rcases lt_trichotomy value it.aim with hlt | heq | hgt
  · rw [cafudda_of_lt hlt, Set.uIcc_of_le hlt.le]
    exact ⟨le_min (by linarith) hlt.le, min_le_right _ _⟩
  · unfold cafudda
    rw [if_neg (not_not.2 heq.symm)]
    cases hmode : it.mode with
    | ONCE => exact Set.left_mem_uIcc
    | LOOP => exact absurd heq.symm (hloop hmode)
    | BOUNCE => exact Set.left_mem_uIcc
    | PULSE =>
        simp only
        split_ifs <;> exact Set.left_mem_uIcc
  · rw [cafudda_of_gt hgt, Set.uIcc_of_ge hgt.le]
    exact ⟨le_max_right _ _, max_le (by linarith) hgt.le⟩

/-- A call comes closer by a step, or gets to the aim. -/
theorem abs_cafudda_le (hne : it.aim ≠ value) {d : K}
    (hd : |it.aim - value| ≤ d + it.step) (h0 : 0 ≤ d) :
    |it.aim - (it.cafudda value).2.2| ≤ d := by
  rw [abs_le] at hd ⊢
  rcases lt_or_gt_of_ne hne.symm with hlt | hgt
  · rw [cafudda_of_lt hlt]
    rcases min_choice (value + it.step) it.aim with h | h <;> rw [h] <;>
      constructor <;> linarith [min_le_right (value + it.step) it.aim]
  · rw [cafudda_of_gt hgt]
    rcases max_choice (value - it.step) it.aim with h | h <;> rw [h] <;>
      constructor <;> linarith [le_max_right (value - it.step) it.aim]

section Aim

omit [IsStrictOrderedRing K]

theorem cafudda_once (h : it.mode = .ONCE) : it.cafudda it.aim = (-1, it, it.aim) := by
  unfold cafudda
  rw [if_neg (not_not.2 rfl), h]

theorem cafudda_loop (h : it.mode = .LOOP) :
    it.cafudda it.aim = (1, it, if it.aim = it.max then it.min else it.max) := by
  unfold cafudda
  rw [if_neg (not_not.2 rfl), h]

theorem cafudda_bounce (h : it.mode = .BOUNCE) :
    it.cafudda it.aim =
      (1, { it with aim := if it.aim ≥ it.max then it.min else it.max }, it.aim) := by
  unfold cafudda
  rw [if_neg (not_not.2 rfl), h]

theorem cafudda_pulse (h : it.mode = .PULSE) :
    it.cafudda it.aim =
      if it.aim ≠ it.saved_value then (1, { it with aim := it.saved_value }, it.aim)
      else (-1, it, it.aim) := by
  unfold cafudda
  rw [if_neg (not_not.2 rfl), h]

end Aim

/-- What a call leaves of an iterator: everything but the aim. -/
structure SameRange (it it' : Iterator K) : Prop where
  saved_eq : it'.saved_value = it.saved_value
  min_eq : it'.min = it.min
  max_eq : it'.max = it.max
  step_eq : it'.step = it.step
  mode_eq : it'.mode = it.mode

omit [IsStrictOrderedRing K] in
theorem cafudda_sameRange (it : Iterator K) (value : K) :
    it.SameRange (it.cafudda value).2.1 := by
  by_cases hne : it.aim = value
  · subst hne
    cases hmode : it.mode with
    | ONCE =>
        rw [cafudda_once hmode]
        exact ⟨rfl, rfl, rfl, rfl, rfl⟩
    | LOOP =>
        rw [cafudda_loop hmode]
        exact ⟨rfl, rfl, rfl, rfl, rfl⟩
    | BOUNCE =>
        rw [cafudda_bounce hmode]
        exact ⟨rfl, rfl, rfl, rfl, rfl⟩
    | PULSE =>
        rw [cafudda_pulse hmode]
        split_ifs <;> exact ⟨rfl, rfl, rfl, rfl, rfl⟩
  · rw [cafudda_of_ne hne]
    exact ⟨rfl, rfl, rfl, rfl, rfl⟩

omit [IsStrictOrderedRing K] in
theorem InRange.min_mem (h : it.InRange value) : it.min ∈ Set.Icc it.min it.max :=
  Set.left_mem_Icc.2 (h.value_mem.1.trans h.value_mem.2)

omit [IsStrictOrderedRing K] in
theorem InRange.max_mem (h : it.InRange value) : it.max ∈ Set.Icc it.min it.max :=
  Set.right_mem_Icc.2 (h.value_mem.1.trans h.value_mem.2)

/-- **A call keeps the value in its range**, whatever the mode. -/
theorem cafudda_inRange (h : it.InRange value) :
    (it.cafudda value).2.1.InRange (it.cafudda value).2.2 := by
  by_cases hne : it.aim = value
  · subst hne
    cases hmode : it.mode with
    | ONCE =>
        rw [cafudda_once hmode]
        exact h
    | LOOP =>
        rw [cafudda_loop hmode]
        refine ⟨h.step_pos, ?_, h.aim_mem, h.saved_mem⟩
        simp only
        split_ifs
        · exact h.min_mem
        · exact h.max_mem
    | BOUNCE =>
        rw [cafudda_bounce hmode]
        refine ⟨h.step_pos, h.value_mem, ?_, h.saved_mem⟩
        simp only
        split_ifs
        · exact h.min_mem
        · exact h.max_mem
    | PULSE =>
        rw [cafudda_pulse hmode]
        split_ifs
        · exact ⟨h.step_pos, h.value_mem, h.saved_mem hmode, h.saved_mem⟩
        · exact h
  · have hmem := cafudda_mem_uIcc h.step_pos fun _ => hne
    rw [cafudda_of_ne hne]
    exact ⟨h.step_pos, Set.uIcc_subset_Icc h.value_mem h.aim_mem hmem, h.aim_mem, h.saved_mem⟩

/-! ### Calls one after the other -/

section Runs

omit [IsStrictOrderedRing K]

variable {s t u : Iterator K × K} {n m : ℕ}

/-- `n` calls, none of which returns -1, lead from `s` to `t`. -/
def Runs (n : ℕ) (s t : Iterator K × K) : Prop :=
  calls n s = t ∧ ∀ k < n, result k s = 1

theorem calls_add (n m : ℕ) (s : Iterator K × K) : calls (n + m) s = calls m (calls n s) := by
  rw [Nat.add_comm]
  exact Function.iterate_add_apply call m n s

theorem result_add (n m : ℕ) (s : Iterator K × K) :
    result (n + m) s = result m (calls n s) := by
  simp only [result, calls_add]

theorem Runs.refl (s : Iterator K × K) : Runs 0 s s := ⟨rfl, fun k hk => absurd hk k.not_lt_zero⟩

theorem Runs.trans (hst : Runs n s t) (htu : Runs m t u) : Runs (n + m) s u := by
  obtain ⟨rfl, hs⟩ := hst
  obtain ⟨rfl, ht⟩ := htu
  refine ⟨calls_add n m s, fun k hk => ?_⟩
  by_cases hkn : k < n
  · exact hs k hkn
  · obtain ⟨j, rfl⟩ := Nat.exists_eq_add_of_le (not_lt.1 hkn)
    rw [result_add]
    exact ht j (by omega)

theorem Runs.single (h : (s.1.cafudda s.2) = (1, t)) : Runs 1 s t := by
  refine ⟨congrArg Prod.snd h, fun k hk => ?_⟩
  obtain rfl : k = 0 := Nat.lt_one_iff.1 hk
  exact congrArg Prod.fst h

end Runs

/-- The range is kept by every run. -/
theorem calls_inRange (h : it.InRange value) (n : ℕ) :
    (calls n (it, value)).1.InRange (calls n (it, value)).2 ∧
      it.SameRange (calls n (it, value)).1 := by
  induction n with
  | zero => exact ⟨h, rfl, rfl, rfl, rfl, rfl⟩
  | succ n ih =>
      obtain ⟨hrange, hsame⟩ := ih
      have hnext : calls (n + 1) (it, value) = call (calls n (it, value)) :=
        Function.iterate_succ_apply' call n (it, value)
      have hkeep := cafudda_sameRange (calls n (it, value)).1 (calls n (it, value)).2
      rw [hnext]
      exact ⟨cafudda_inRange hrange, hkeep.saved_eq.trans hsame.saved_eq,
        hkeep.min_eq.trans hsame.min_eq, hkeep.max_eq.trans hsame.max_eq,
        hkeep.step_eq.trans hsame.step_eq, hkeep.mode_eq.trans hsame.mode_eq⟩

/-- **Reaching the aim.** As many steps as it is away are enough, none of the calls returns -1,
and nothing but the value changes. -/
theorem exists_runs_aim (hstep : 0 < it.step) (n : ℕ) (hn : |it.aim - value| ≤ n * it.step) :
    ∃ k ≤ n, Runs k (it, value) (it, it.aim) := by
  induction n generalizing value with
  | zero =>
      have hzero : it.aim - value = 0 := by simpa using hn
      obtain rfl : it.aim = value := sub_eq_zero.1 hzero
      exact ⟨0, le_rfl, Runs.refl _⟩
  | succ n ih =>
      by_cases hne : it.aim = value
      · subst hne
        exact ⟨0, Nat.zero_le _, Runs.refl _⟩
      · have hclose := abs_cafudda_le hne (d := n * it.step) (by
          push_cast at hn
          linarith) (mul_nonneg n.cast_nonneg hstep.le)
        obtain ⟨k, hk, hruns⟩ := ih hclose
        refine ⟨1 + k, by omega, (Runs.single ?_).trans hruns⟩
        exact cafudda_of_ne hne

/-! ### Coming to an end -/

variable [FloorRing K]

/-- How many steps there are from the value to the aim. -/
def steps (it : Iterator K) (value : K) : ℕ := ⌈|it.aim - value| / it.step⌉₊

theorem exists_runs_aim_le_steps (hstep : 0 < it.step) (value : K) :
    ∃ k ≤ it.steps value, Runs k (it, value) (it, it.aim) :=
  exists_runs_aim hstep _ ((div_le_iff₀ hstep).1 (Nat.le_ceil _))

/-- The calls come to an end: `k` of them return 1 and the next one -1, at `value'`. -/
def EndsAfter (s : Iterator K × K) (k : ℕ) (value' : K) : Prop :=
  (∀ j < k, result j s = 1) ∧ result k s = -1 ∧ (calls k s).2 = value' ∧
    (calls (k + 1) s).2 = value'

omit [IsStrictOrderedRing K] [FloorRing K] in
/-- A run to a state whose next call returns -1 and leaves the value. -/
theorem Runs.endsAfter {s : Iterator K × K} {k : ℕ} (h : Runs k s (it, value))
    (hend : it.cafudda value = (-1, it, value)) : EndsAfter s k value := by
  obtain ⟨hcalls, hres⟩ := h
  refine ⟨hres, ?_, congrArg Prod.snd hcalls, ?_⟩
  · simp only [result, hcalls, hend]
  · rw [calls_add, hcalls]
    exact congrArg (fun r => r.2.2) hend

/-- **`ONCE`** stops at the aim. -/
theorem once_ends (hstep : 0 < it.step) (hmode : it.mode = .ONCE) :
    ∃ k ≤ it.steps value, EndsAfter (it, value) k it.aim := by
  obtain ⟨k, hk, hruns⟩ := exists_runs_aim_le_steps hstep value
  exact ⟨k, hk, hruns.endsAfter (cafudda_once hmode)⟩

/-- **`PULSE`** goes to the aim and back to where it was when the mode was set. -/
theorem pulse_ends (hstep : 0 < it.step) (hmode : it.mode = .PULSE)
    (hsaved : it.saved_value = value) :
    ∃ k ≤ 2 * it.steps value + 1, EndsAfter (it, value) k value ∧
      ∃ j ≤ k, (calls j (it, value)).2 = it.aim := by
  subst hsaved
  obtain ⟨j, hj, hthere⟩ := exists_runs_aim_le_steps hstep it.saved_value
  have hat : (calls j (it, it.saved_value)).2 = it.aim := congrArg Prod.snd hthere.1
  have hpulse := cafudda_pulse hmode
  split_ifs at hpulse with heq
  · -- the aim becomes the saved value, and is as far away as before
    let back : Iterator K := { it with aim := it.saved_value }
    have hstep' : 0 < back.step := hstep
    have hmode' : back.mode = .PULSE := hmode
    obtain ⟨k, hk, hback⟩ := exists_runs_aim_le_steps hstep' it.aim
    have hsteps : back.steps it.aim = it.steps it.saved_value := by
      simp only [steps, back]
      rw [abs_sub_comm]
    have hend : back.cafudda back.aim = (-1, back, back.aim) := by
      rw [cafudda_pulse hmode', if_neg (not_not.2 rfl)]
    have hruns := (hthere.trans (Runs.single hpulse)).trans hback
    exact ⟨j + 1 + k, by omega, hruns.endsAfter hend, j, by omega, hat⟩
  · have haim : it.aim = it.saved_value := not_not.1 heq
    have hdone := hthere.endsAfter hpulse
    rw [haim] at hdone
    exact ⟨j, by omega, hdone, j, le_rfl, hat⟩

/-! ### Going on for ever -/

/-- An iterator that loops or bounces between the two ends of its range. -/
structure BetweenEnds (it : Iterator K) (value : K) : Prop where
  inRange : it.InRange value
  mode_eq : it.mode = .LOOP ∨ it.mode = .BOUNCE
  aim_eq : it.aim = it.min ∨ it.aim = it.max

omit [FloorRing K] in
/-- A call of such an iterator does not return -1, and the iterator goes on. -/
theorem BetweenEnds.cafudda (h : it.BetweenEnds value) :
    (it.cafudda value).1 = 1 ∧ (it.cafudda value).2.1.BetweenEnds (it.cafudda value).2.2 := by
  have hrange := cafudda_inRange h.inRange
  by_cases hne : it.aim = value
  · subst hne
    rcases h.mode_eq with hmode | hmode
    · rw [cafudda_loop hmode] at hrange ⊢
      exact ⟨rfl, hrange, h.mode_eq, h.aim_eq⟩
    · rw [cafudda_bounce hmode] at hrange ⊢
      refine ⟨rfl, hrange, h.mode_eq, ?_⟩
      simp only
      split_ifs
      · exact Or.inl rfl
      · exact Or.inr rfl
  · rw [cafudda_of_ne hne] at hrange ⊢
    exact ⟨rfl, hrange, h.mode_eq, h.aim_eq⟩

omit [FloorRing K] in
theorem BetweenEnds.calls (h : it.BetweenEnds value) (n : ℕ) :
    result n (it, value) = 1 ∧
      (Iterator.calls n (it, value)).1.BetweenEnds (Iterator.calls n (it, value)).2 := by
  have hrun : (Iterator.calls n (it, value)).1.BetweenEnds (Iterator.calls n (it, value)).2 := by
    induction n with
    | zero => exact h
    | succ n ih =>
        rw [Iterator.calls, Function.iterate_succ_apply']
        exact ih.cafudda.2
  exact ⟨hrun.cafudda.1, hrun⟩

/-- Such an iterator comes to one end and then to the other. -/
theorem BetweenEnds.exists_calls (h : it.BetweenEnds value) :
    (∃ n, (Iterator.calls n (it, value)).2 = it.min) ∧
      ∃ n, (Iterator.calls n (it, value)).2 = it.max := by
  obtain ⟨k, -, hk, -⟩ := exists_runs_aim_le_steps h.inRange.step_pos value
  have hat : (Iterator.calls k (it, value)).2 = it.aim := congrArg Prod.snd hk
  have hle : it.min ≤ it.max := h.inRange.value_mem.1.trans h.inRange.value_mem.2
  have hnext : Iterator.calls (k + 1) (it, value) = (it.cafudda it.aim).2 := by
    rw [calls_add, hk]
    rfl
  rcases h.mode_eq with hmode | hmode
  · rw [cafudda_loop hmode] at hnext
    by_cases haim : it.aim = it.max
    · rw [if_pos haim] at hnext
      exact ⟨⟨k + 1, congrArg Prod.snd hnext⟩, k, hat.trans haim⟩
    · rw [if_neg haim] at hnext
      exact ⟨⟨k, hat.trans (h.aim_eq.resolve_right haim)⟩, k + 1, congrArg Prod.snd hnext⟩
  · rw [cafudda_bounce hmode] at hnext
    by_cases haim : it.aim = it.max
    · rw [if_pos haim.ge] at hnext
      have hstep : 0 < Iterator.step { it with aim := it.min } := h.inRange.step_pos
      obtain ⟨m, -, hm, -⟩ := exists_runs_aim_le_steps hstep it.aim
      refine ⟨⟨k + 1 + m, ?_⟩, k, hat.trans haim⟩
      rw [calls_add, hnext]
      exact congrArg Prod.snd hm
    · have hmin := h.aim_eq.resolve_right haim
      have hlt : ¬ it.aim ≥ it.max := by
        rw [hmin] at haim ⊢
        exact (lt_of_le_of_ne hle haim).not_ge
      rw [if_neg hlt] at hnext
      have hstep : 0 < Iterator.step { it with aim := it.max } := h.inRange.step_pos
      obtain ⟨m, -, hm, -⟩ := exists_runs_aim_le_steps hstep it.aim
      refine ⟨⟨k, hat.trans hmin⟩, k + 1 + m, ?_⟩
      rw [calls_add, hnext]
      exact congrArg Prod.snd hm

/-- **`LOOP` and `BOUNCE`** visit both ends again and again. -/
theorem BetweenEnds.frequently (h : it.BetweenEnds value) (N : ℕ) :
    (∃ n ≥ N, (Iterator.calls n (it, value)).2 = it.min) ∧
      ∃ n ≥ N, (Iterator.calls n (it, value)).2 = it.max := by
  have hsame := (calls_inRange h.inRange N).2
  obtain ⟨⟨n, hmin⟩, m, hmax⟩ := (h.calls N).2.exists_calls
  refine ⟨⟨N + n, Nat.le_add_right N n, ?_⟩, N + m, Nat.le_add_right N m, ?_⟩
  · rw [calls_add]
    exact hmin.trans hsame.min_eq
  · rw [calls_add]
    exact hmax.trans hsame.max_eq

end Iterator

/-- **Iterators converge.** Of every iterator with a positive step whose value and aim are in
its range: after any number of calls the value is in the range, and the next call moves it
towards the aim of then and not past it, but for the jump of `LOOP`. In `ONCE` mode -1 is
returned at the aim after as many calls as there are steps, and one more; when the mode is set
to `PULSE`, at the present value, after the aim was reached; in `LOOP` and `BOUNCE` mode, with
the aim at an end of the range, never, and both ends are visited again and again. -/
theorem iterator_converges {K : Type*} [Field K] [LinearOrder K] [IsStrictOrderedRing K]
    [FloorRing K] {it : Iterator K} {value : K} (h : it.InRange value) :
    (∀ n, (Iterator.calls n (it, value)).2 ∈ Set.Icc it.min it.max ∧
      ((it.mode = .LOOP → (Iterator.calls n (it, value)).1.aim ≠ (Iterator.calls n (it, value)).2) →
        (Iterator.calls (n + 1) (it, value)).2 ∈
          Set.uIcc (Iterator.calls n (it, value)).2 (Iterator.calls n (it, value)).1.aim)) ∧
    (it.mode = .ONCE →
      ∃ k ≤ ⌈|it.aim - value| / it.step⌉₊, Iterator.EndsAfter (it, value) k it.aim) ∧
    ((it.set_mode .PULSE value).InRange value ∧
      ∃ k ≤ 2 * ⌈|it.aim - value| / it.step⌉₊ + 1,
        Iterator.EndsAfter (it.set_mode .PULSE value, value) k value ∧
          ∃ j ≤ k, (Iterator.calls j (it.set_mode .PULSE value, value)).2 = it.aim) ∧
    (it.mode = .LOOP ∨ it.mode = .BOUNCE → it.aim = it.min ∨ it.aim = it.max →
      ∀ n, Iterator.result n (it, value) = 1 ∧
        (∃ m ≥ n, (Iterator.calls m (it, value)).2 = it.min) ∧
        ∃ m ≥ n, (Iterator.calls m (it, value)).2 = it.max) := by
  refine ⟨fun n => ?_, Iterator.once_ends h.step_pos, ?_, fun hmode haim n => ?_⟩
  · obtain ⟨hrange, hsame⟩ := Iterator.calls_inRange h n
    have hmem := hrange.value_mem
    rw [hsame.min_eq, hsame.max_eq] at hmem
    refine ⟨hmem, fun hloop => ?_⟩
    rw [Iterator.calls_add n 1]
    exact Iterator.cafudda_mem_uIcc hrange.step_pos fun hl => hloop (hsame.mode_eq.symm.trans hl)
  · have hstep : 0 < (it.set_mode .PULSE value).step := h.step_pos
    exact ⟨⟨h.step_pos, h.value_mem, h.aim_mem, fun _ => h.value_mem⟩,
      Iterator.pulse_ends hstep rfl rfl⟩
  · have hends : it.BetweenEnds value := ⟨h, hmode, haim⟩
    exact ⟨(hends.calls n).1, hends.frequently n⟩

/-- From 0 to 5 in steps of 2. -/
theorem iterator_converges_once :
    let it : Iterator ℚ := { Iterator.new 0 0 with aim := 5, step := 2 }
    ∃ k ≤ 3, Iterator.EndsAfter (it, 0) k 5 := by
  intro it
  have h : it.InRange 0 := by
    refine ⟨?_, ⟨?_, ?_⟩, ⟨?_, ?_⟩, fun hmode => ?_⟩
    · exact two_pos
    · norm_num [it, Iterator.new]
    · norm_num [it, Iterator.new]
    · norm_num [it, Iterator.new]
    · norm_num [it, Iterator.new]
    · cases hmode
  obtain ⟨k, hk, hends⟩ := (iterator_converges h).2.1 rfl
  have hsteps : ⌈|it.aim - 0| / it.step⌉₊ = 3 := by
    norm_num [it, Nat.ceil_eq_iff]
  exact ⟨k, hsteps ▸ hk, hends⟩

end FreeJ
