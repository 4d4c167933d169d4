import Mathlib.Data.Nat.Find

/-!
# Loops that May Go On for Ever

A loop whose rounds are numbered, and which goes on while its state says so, with the test
before the first round (`whileDo`) or after it (`doWhile`). Both are run with a bound on the
number of rounds, and give nothing when it is reached; that a loop ends is that it gives
something for some bound.

## Main results

* `doWhile_ends_iff`, `whileDo_ends_iff`: a loop ends in a state when this is the state after
  some number of rounds, the test fails there, and did not fail before.
* `ends_of_again`, `ends_of_not_again`, `Ends.keeps`: the rules of a loop whose body does not
  depend on the number of the round.
-/

namespace Loops

variable {σ : Type*} (body : ℕ → σ → σ) (again : σ → Prop) [DecidablePred again]

/-- The state after some rounds. -/
def rounds (s : σ) : ℕ → σ
  | 0 => s
  | k + 1 => body k (rounds s k)

/-- `do { .. } while (again)`, from round `k` on, for `n` rounds at most. -/
def doWhile : ℕ → ℕ → σ → Option σ
  | 0, _, _ => none
  | n + 1, k, s => if again (body k s) then doWhile n (k + 1) (body k s) else some (body k s)

/-- `while (again) { .. }`, from round `k` on, for less than `n` rounds. -/
def whileDo : ℕ → ℕ → σ → Option σ
  | 0, _, _ => none
  | n + 1, k, s => if again s then whileDo n (k + 1) (body k s) else some s

variable {body again} {s t : σ} {n k : ℕ}

/-- What a loop with the test at its end gives, from the state after `k` rounds. -/
theorem doWhile_eq_some_iff : doWhile body again n k (rounds body s k) = some t ↔
    ∃ m, k < m ∧ m ≤ k + n ∧ t = rounds body s m ∧ ¬ again t ∧
      ∀ j, k < j → j < m → again (rounds body s j) := by
  induction n generalizing k with
  | zero =>
      rw [doWhile]
      constructor
      · simp
      · rintro ⟨m, h1, h2, -⟩
        omega
  | succ n ih =>
      have hbody : body k (rounds body s k) = rounds body s (k + 1) := rfl
      rw [doWhile, hbody]
      split
      · rename_i hagain
        rw [ih]
        constructor
        · rintro ⟨m, h1, h2, ht, hstop, hgo⟩
          refine ⟨m, by omega, by omega, ht, hstop, fun j h3 h4 => ?_⟩
          by_cases hj : j = k + 1
          · rwa [hj]
          · exact hgo j (by omega) h4
        · rintro ⟨m, h1, h2, rfl, hstop, hgo⟩
          have hm : m ≠ k + 1 := fun hm => hstop (hm ▸ hagain)
          exact ⟨m, by omega, by omega, rfl, hstop, fun j h3 h4 => hgo j (by omega) h4⟩
      · rename_i hstop
        constructor
        · intro ht
          obtain rfl := Option.some.inj ht
          exact ⟨k + 1, by omega, by omega, rfl, hstop, fun j h1 h2 => by omega⟩
        · rintro ⟨m, h1, h2, rfl, -, hgo⟩
          by_cases hm : m = k + 1
          · rw [hm]
          · exact absurd (hgo (k + 1) (by omega) (by omega)) hstop

/-- **A loop with the test at its end** ends after the first round that does not ask for
another. -/
theorem doWhile_ends_iff : (∃ n, doWhile body again n 0 s = some t) ↔
    ∃ m, 0 < m ∧ t = rounds body s m ∧ ¬ again t ∧
      ∀ j, 0 < j → j < m → again (rounds body s j) := by
  constructor
  · rintro ⟨n, h⟩
    obtain ⟨m, hpos, -, ht, hstop, hgo⟩ := doWhile_eq_some_iff.mp h
    exact ⟨m, hpos, ht, hstop, hgo⟩
  · rintro ⟨m, hpos, ht, hstop, hgo⟩
    exact ⟨m, doWhile_eq_some_iff.mpr ⟨m, hpos, by omega, ht, hstop, hgo⟩⟩

/-- What a loop with the test at its start gives, from the state after `k` rounds. -/
theorem whileDo_eq_some_iff : whileDo body again n k (rounds body s k) = some t ↔
    ∃ m, k ≤ m ∧ m < k + n ∧ t = rounds body s m ∧ ¬ again t ∧
      ∀ j, k ≤ j → j < m → again (rounds body s j) := by
  induction n generalizing k with
  | zero =>
      rw [whileDo]
      constructor
      · simp
      · rintro ⟨m, h1, h2, -⟩
        omega
  | succ n ih =>
      have hbody : body k (rounds body s k) = rounds body s (k + 1) := rfl
      rw [whileDo, hbody]
      split
      · rename_i hagain
        rw [ih]
        constructor
        · rintro ⟨m, h1, h2, ht, hstop, hgo⟩
          refine ⟨m, by omega, by omega, ht, hstop, fun j h3 h4 => ?_⟩
          by_cases hj : j = k
          · rwa [hj]
          · exact hgo j (by omega) h4
        · rintro ⟨m, h1, h2, rfl, hstop, hgo⟩
          have hm : m ≠ k := fun hm => hstop (hm ▸ hagain)
          exact ⟨m, by omega, by omega, rfl, hstop, fun j h3 h4 => hgo j (by omega) h4⟩
      · rename_i hstop
        constructor
        · intro ht
          obtain rfl := Option.some.inj ht
          exact ⟨k, Nat.le_refl k, by omega, rfl, hstop, fun j h1 h2 => by omega⟩
        · rintro ⟨m, h1, h2, rfl, -, hgo⟩
          by_cases hm : m = k
          · rw [hm]
          · exact absurd (hgo k (Nat.le_refl k) (by omega)) hstop

/-- **A loop with the test at its start** ends in the first state that does not ask for a
round. -/
theorem whileDo_ends_iff : (∃ n, whileDo body again n 0 s = some t) ↔
    ∃ m, t = rounds body s m ∧ ¬ again t ∧ ∀ j, j < m → again (rounds body s j) := by
  constructor
  · rintro ⟨n, h⟩
    obtain ⟨m, -, -, ht, hstop, hgo⟩ := whileDo_eq_some_iff.mp h
    exact ⟨m, ht, hstop, fun j => hgo j (Nat.zero_le j)⟩
  · rintro ⟨m, ht, hstop, hgo⟩
    exact ⟨m + 1, whileDo_eq_some_iff.mpr
      ⟨m, Nat.zero_le m, by omega, ht, hstop, fun j _ => hgo j⟩⟩

/-- A loop with the test at its start ends if some round does not ask for another. -/
theorem exists_whileDo {m : ℕ} (h : ¬ again (rounds body s m)) :
    ∃ n t, whileDo body again n 0 s = some t := by
  classical
  have hex : ∃ m, ¬ again (rounds body s m) := ⟨m, h⟩
  obtain ⟨n, hn⟩ := whileDo_ends_iff.mpr ⟨Nat.find hex, rfl, Nat.find_spec hex,
    fun j hj => not_not.mp (Nat.find_min hex hj)⟩
  exact ⟨n, _, hn⟩

/-! ### Loops whose body does not count -/

section Ends

variable {f : σ → σ}

theorem whileDo_const (n k k' : ℕ) (s : σ) :
    whileDo (fun _ => f) again n k s = whileDo (fun _ => f) again n k' s := by
  induction n generalizing k k' s with
  | zero => rfl
  | succ n ih =>
      rw [whileDo, whileDo]
      split
      · exact ih _ _ _
      · rfl

/-- `while (again) { f }` ends in `t`. -/
def Ends (f : σ → σ) (again : σ → Prop) [DecidablePred again] (s t : σ) : Prop :=
  ∃ n, whileDo (fun _ => f) again n 0 s = some t

theorem ends_of_again (h : again s) : Ends f again s t ↔ Ends f again (f s) t := by
  constructor
  · rintro ⟨n, hn⟩
    cases n with
    | zero => exact nomatch hn
    | succ n =>
        rw [whileDo, if_pos h, whileDo_const n _ 0] at hn
        exact ⟨n, hn⟩
  · rintro ⟨n, hn⟩
    refine ⟨n + 1, ?_⟩
    rw [whileDo, if_pos h, whileDo_const n _ 0]
    exact hn

theorem ends_of_not_again (h : ¬ again s) : Ends f again s t ↔ t = s := by
  constructor
  · rintro ⟨n, hn⟩
    cases n with
    | zero => exact nomatch hn
    | succ n =>
        rw [whileDo, if_neg h] at hn
        exact (Option.some.inj hn).symm
  · rintro rfl
    exact ⟨1, if_neg h⟩

/-- What every round keeps holds where the loop ends. -/
theorem Ends.keeps {I : σ → Prop} (h : Ends f again s t) (h0 : I s)
    (hstep : ∀ s, I s → I (f s)) : I t := by
  obtain ⟨n, hn⟩ := h
  induction n generalizing s with
  | zero => exact nomatch hn
  | succ n ih =>
      rw [whileDo] at hn
      split at hn
      · rw [whileDo_const n _ 0] at hn
        exact ih (hstep s h0) hn
      · exact Option.some.inj hn ▸ h0

end Ends

end Loops
