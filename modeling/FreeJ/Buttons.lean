import Mathlib.Data.List.Basic

/-!
# Button Events

A controller that is told the state of all its buttons at once, as a mask with a bit for each,
reports what changed: it goes through the bits from the highest down and calls `button` for
each one that differs from the mask before. The masks are passed on as `unsigned int`; here
they keep the width `n` of the variable that runs through the bits.

## Main results

* `report_buttonEvents`: the calls for one report name every changed bit once, and setting and
  clearing the bits as they say leads from the mask before to the new one.
* `Reconstructs.fold`: over any number of reports, the calls lead to the last mask reported.
-/

namespace FreeJ

/-- A call of `button`: which one, whether it is pressed, the mask, and the mask before. -/
structure ButtonEvent (n : ℕ) where
  button : BitVec n
  state : Bool
  mask : BitVec n
  old_mask : BitVec n
  deriving DecidableEq, Repr

variable {n : ℕ}

/-- The loop over the bits of `diff`, with `j` of them to go: `k` is `1 << (j - 1)`, and shifting
it down once more when `j = 1` ends the loop. -/
def buttonLoop (diff mask old_mask : BitVec n) : ℕ → List (ButtonEvent n)
  | 0 => []
  | j + 1 =>
    let k := 1#n <<< j
    if k &&& diff ≠ 0 then
      ⟨k, k &&& mask ≠ 0, mask, old_mask⟩ :: buttonLoop diff mask old_mask j
    else buttonLoop diff mask old_mask j

/-- The calls made for the new mask `mask` after `old_mask`. -/
def buttonEvents (mask old_mask : BitVec n) : List (ButtonEvent n) :=
  let diff := mask ^^^ old_mask
  if diff ≠ 0 then buttonLoop diff mask old_mask n else []

/-! ### What the receiver of the calls makes of them -/

/-- Set the bit of a button that is pressed, clear that of one that is released. -/
def ButtonEvent.apply (m : BitVec n) (e : ButtonEvent n) : BitVec n :=
  if e.state then m ||| e.button else m &&& ~~~e.button

/-- What the calls made for one report have to be: the masks are right, every changed bit is
named once and no other is, and following the calls leads from the old mask to the new. -/
structure Report (old new : BitVec n) (events : List (ButtonEvent n)) : Prop where
  masks : ∀ e ∈ events, e.mask = new ∧ e.old_mask = old
  nodup : (events.map ButtonEvent.button).Nodup
  changed : ∀ k, k ∈ events.map ButtonEvent.button ↔
    ∃ j < n, k = BitVec.twoPow n j ∧ old.getLsbD j ≠ new.getLsbD j
  fold : events.foldl ButtonEvent.apply old = new

/-- The calls are those for the reports, one report after the other from the mask `old` on. -/
def Reconstructs (old : BitVec n) : List (BitVec n) → List (ButtonEvent n) → Prop
  | [], events => events = []
  | new :: reports, events =>
    ∃ first rest, events = first ++ rest ∧ Report old new first ∧ Reconstructs new reports rest

variable {diff mask old new : BitVec n} {events : List (ButtonEvent n)} {j : ℕ}

/-- The test of the loop reads bit `j`. -/
theorem and_shiftLeft_ne_zero (hj : j < n) : 1#n <<< j &&& diff ≠ 0 ↔ diff.getLsbD j = true := by
  rw [← BitVec.twoPow_eq, BitVec.twoPow_and]
  have hne : BitVec.twoPow n j ≠ 0#n := by
    intro h0
    have hbit := congrArg (fun m : BitVec n => m.getLsbD j) h0
    simp [hj] at hbit
  by_cases hbit : diff.getLsbD j = true <;> simp [hbit, hne]

/-- One round of the loop. -/
theorem buttonLoop_succ (hj : j < n) :
    buttonLoop diff mask old (j + 1) =
      if diff.getLsbD j then
        ⟨BitVec.twoPow n j, mask.getLsbD j, mask, old⟩ :: buttonLoop diff mask old j
      else buttonLoop diff mask old j := by
  simp only [buttonLoop, and_shiftLeft_ne_zero hj, BitVec.twoPow_eq, Bool.decide_eq_true]

/-- Following a call sets or clears its bit and leaves the others. -/
theorem getLsbD_apply {m : BitVec n} (hj : j < n) (b : Bool) (i : ℕ) :
    (ButtonEvent.apply m ⟨BitVec.twoPow n j, b, mask, old⟩).getLsbD i =
      if i = j then b else m.getLsbD i := by
  simp only [ButtonEvent.apply]
  cases b with
  | true =>
      by_cases hij : i = j
      · subst hij
        simp [hj]
      · simp [hij, Ne.symm hij]
  | false =>
      by_cases hij : i = j
      · subst hij
        simp [hj]
      · by_cases hi : i < n
        · simp [hij, hi]
        · simp [hij, BitVec.getLsbD_of_ge m i (by omega)]

/-- **The loop** over `j` bits of `diff`: which bits the mask differs in afterwards. -/
theorem getLsbD_foldl_buttonLoop (hj : j ≤ n) (m : BitVec n) (i : ℕ) :
    ((buttonLoop diff mask old j).foldl ButtonEvent.apply m).getLsbD i =
      if i < j ∧ diff.getLsbD i = true then mask.getLsbD i else m.getLsbD i := by
  induction j generalizing m with
  | zero => simp [buttonLoop]
  | succ j ih =>
      rw [buttonLoop_succ (by omega)]
      by_cases hbit : diff.getLsbD j = true
      · rw [if_pos hbit, List.foldl_cons, ih (by omega), getLsbD_apply (by omega)]
        by_cases hij : i = j
        · subst hij
          simp [hbit]
        · have hlt : i < j + 1 ↔ i < j := by omega
          simp [hij, hlt]
      · rw [if_neg hbit, ih (by omega)]
        by_cases hij : i = j
        · subst hij
          simp [hbit]
        · have hlt : i < j + 1 ↔ i < j := by omega
          simp [hlt]

/-- Every call carries the two masks the loop was given. -/
theorem masks_buttonLoop {e : ButtonEvent n} (he : e ∈ buttonLoop diff mask old j) :
    e.mask = mask ∧ e.old_mask = old := by
  induction j with
  | zero => simp [buttonLoop] at he
  | succ j ih =>
      simp only [buttonLoop] at he
      split at he
      · rcases List.mem_cons.mp he with rfl | he
        · exact ⟨rfl, rfl⟩
        · exact ih he
      · exact ih he

/-- The loop names the bits of `diff` among the lowest `j`. -/
theorem mem_button_buttonLoop (hj : j ≤ n) (k : BitVec n) :
    k ∈ (buttonLoop diff mask old j).map ButtonEvent.button ↔
      ∃ i < j, k = BitVec.twoPow n i ∧ diff.getLsbD i = true := by
  induction j with
  | zero => simp [buttonLoop]
  | succ j ih =>
      rw [buttonLoop_succ (by omega)]
      by_cases hbit : diff.getLsbD j = true
      · rw [if_pos hbit, List.map_cons, List.mem_cons, ih (by omega)]
        constructor
        · rintro (rfl | ⟨i, hi, rfl, hd⟩)
          · exact ⟨j, by omega, rfl, hbit⟩
          · exact ⟨i, by omega, rfl, hd⟩
        · rintro ⟨i, hi, rfl, hd⟩
          rcases Nat.lt_succ_iff_lt_or_eq.mp hi with hlt | rfl
          · exact Or.inr ⟨i, hlt, rfl, hd⟩
          · exact Or.inl rfl
      · rw [if_neg hbit, ih (by omega)]
        constructor
        · rintro ⟨i, hi, rfl, hd⟩
          exact ⟨i, by omega, rfl, hd⟩
        · rintro ⟨i, hi, rfl, hd⟩
          have hij : i ≠ j := by
            rintro rfl
            exact hbit hd
          exact ⟨i, by omega, rfl, hd⟩

/-- Two powers of two in a word are equal only if the exponents are. -/
theorem twoPow_inj {i : ℕ} (hj : j < n) (h : BitVec.twoPow n i = BitVec.twoPow n j) : i = j := by
  have hbit := congrArg (fun m : BitVec n => m.getLsbD j) h
  simp only [BitVec.getLsbD_twoPow, hj, decide_true, Bool.true_and, Bool.and_eq_true,
    decide_eq_true_eq] at hbit
  exact hbit.2

/-- The loop names no bit twice. -/
theorem nodup_button_buttonLoop (hj : j ≤ n) :
    ((buttonLoop diff mask old j).map ButtonEvent.button).Nodup := by
  induction j with
  | zero => simp [buttonLoop]
  | succ j ih =>
      rw [buttonLoop_succ (by omega)]
      by_cases hbit : diff.getLsbD j = true
      · rw [if_pos hbit, List.map_cons, List.nodup_cons, mem_button_buttonLoop (by omega)]
        refine ⟨?_, ih (by omega)⟩
        rintro ⟨i, hi, hk, -⟩
        have := twoPow_inj (by omega) hk
        omega
      · rw [if_neg hbit]
        exact ih (by omega)

/-- **One report.** The calls made for a new mask are the report of what changed. -/
theorem report_buttonEvents (mask old : BitVec n) : Report old mask (buttonEvents mask old) := by
  have hxor : ∀ j, (mask ^^^ old).getLsbD j = true ↔ old.getLsbD j ≠ mask.getLsbD j := by
    intro j
    rw [BitVec.getLsbD_xor]
    cases mask.getLsbD j <;> cases old.getLsbD j <;> decide
  have hloop : buttonEvents mask old = buttonLoop (mask ^^^ old) mask old n := by
    simp only [buttonEvents]
    split
    · rfl
    · rename_i hdiff
      refine (List.eq_nil_iff_forall_not_mem.mpr fun e he => ?_).symm
      obtain ⟨i, -, -, hi⟩ := (mem_button_buttonLoop (Nat.le_refl n) _).mp (List.mem_map_of_mem he)
      simp [not_not.mp hdiff] at hi
  rw [hloop]
  refine ⟨fun e he => masks_buttonLoop he, nodup_button_buttonLoop (Nat.le_refl n), fun k => ?_, ?_⟩
  · simp only [mem_button_buttonLoop (Nat.le_refl n), hxor]
  · refine BitVec.eq_of_getLsbD_eq fun i hi => ?_
    rw [getLsbD_foldl_buttonLoop (Nat.le_refl n)]
    split
    · rfl
    · rename_i hsame
      rw [hxor] at hsame
      exact not_not.mp fun hne => hsame ⟨hi, hne⟩

/-- The calls of one more report. -/
theorem Reconstructs.snoc {reports : List (BitVec n)} {more : List (ButtonEvent n)}
    (h : Reconstructs old reports events)
    (hr : Report (reports.getLastD old) new more) :
    Reconstructs old (reports ++ [new]) (events ++ more) := by
  induction reports generalizing old events with
  | nil =>
      obtain rfl : events = [] := h
      exact ⟨more, [], by simp, hr, rfl⟩
  | cons m reports ih =>
      obtain ⟨first, rest, rfl, hfirst, hrest⟩ := h
      refine ⟨first, rest ++ more, by simp, hfirst, ih hrest ?_⟩
      rwa [List.getLastD_cons] at hr

/-- **Following the calls** of all reports leads to the last mask reported. -/
theorem Reconstructs.fold {reports : List (BitVec n)} (h : Reconstructs old reports events) :
    events.foldl ButtonEvent.apply old = reports.getLastD old := by
  induction reports generalizing old events with
  | nil =>
      obtain rfl : events = [] := h
      rfl
  | cons m reports ih =>
      obtain ⟨first, rest, rfl, hfirst, hrest⟩ := h
      rw [List.foldl_append, hfirst.fold, ih hrest, List.getLastD_cons]

end FreeJ
