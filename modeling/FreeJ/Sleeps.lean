import Mathlib.Algebra.BigOperators.Group.List.Basic
import Mathlib.Tactic.Ring

/-!
# Interrupted Sleeps

`FPS::delay` and the part of `FPS::calc` that says how long it is, of `fps.cpp`, and `jsleep`
of `jutils.cpp`. Both call `nanosleep` again after a signal. What `nanosleep` does at each call
is given from outside; when no more is given, it sleeps the whole time.

A `timespec` that `nanosleep` accepts has less than `10 ^ 9` nanoseconds.

## Main results

* `Resumes.slept_eq`: calls that go on where they were interrupted add up to the time asked.
* `sleeps_iff`: `delay` goes on so if and only if the signals let it keep its seconds, `jsleep`
  if and only if none came after it had slept at all.
-/

namespace FreeJ

/-- `struct timespec` -/
structure Timespec where
  tv_sec : ℕ
  tv_nsec : ℕ
  nsec_lt : tv_nsec < 10 ^ 9
  deriving DecidableEq

/-- The time in nanoseconds. -/
def Timespec.total (t : Timespec) : ℤ := t.tv_sec * 10 ^ 9 + t.tv_nsec

/-- No time at all. -/
def Timespec.zero : Timespec := ⟨0, 0, by decide⟩

theorem Timespec.zero_total : Timespec.zero.total = 0 := by
  simp only [Timespec.total, Timespec.zero]
  omega

/-- What a call of `nanosleep` comes to: it returns 0; it is interrupted by a signal and
reports the remaining time; it fails otherwise. -/
inductive Nanosleep
  | slept
  | EINTR (remaining : Timespec)
  | failed

/-- A call of `nanosleep`. -/
structure SleepCall where
  asked : Timespec
  result : Nanosleep

/-- How long the process slept in a call. -/
def SleepCall.slept (c : SleepCall) : ℤ :=
  match c.result with
  | .slept => c.asked.total
  | .EINTR remaining => c.asked.total - remaining.total
  | .failed => 0

/-- How long it slept altogether. -/
def sleptIn (calls : List SleepCall) : ℤ := (calls.map SleepCall.slept).sum

theorem sleptIn_cons (c : SleepCall) (calls : List SleepCall) :
    sleptIn (c :: calls) = c.slept + sleptIn calls := by
  simp [sleptIn]

/-- An interrupted call and what is slept after it. -/
theorem sleptIn_EINTR (t remaining : Timespec) (calls : List SleepCall) :
    sleptIn (⟨t, .EINTR remaining⟩ :: calls) = t.total - remaining.total + sleptIn calls :=
  sleptIn_cons ..

/-! ### `FPS` -/

/-- `struct timeval` -/
structure Timeval where
  tv_sec : ℤ
  tv_usec : ℕ
  usec_lt : tv_usec < 10 ^ 6
  deriving DecidableEq

/-- `FPS::calc`, a delay in nanoseconds stored into `wake_ts`. -/
def FPS.setWake (nsec : ℕ) : Timespec :=
  if h : nsec ≥ 10 ^ 9 then
    let sec := nsec / 10 ^ 9
    ⟨sec, nsec - sec * 10 ^ 9, by omega⟩
  else ⟨0, nsec, by omega⟩

/-- `timersub` -/
def timersub (a b : Timeval) : ℤ × ℤ :=
  let sec := a.tv_sec - b.tv_sec
  let usec := (a.tv_usec : ℤ) - b.tv_usec
  if usec < 0 then (sec - 1, usec + 10 ^ 6) else (sec, usec)

/-- `FPS::calc`, what it leaves in `wake_ts`, where `period` is `_period` in microseconds. -/
def FPS.calc (wake_ts : Timespec) (now_tv start_tv : Timeval) (period : ℤ) : Timespec :=
  if now_tv = start_tv then ⟨0, 1000000, by decide⟩ -- tight loop, take a minimum breath
  else
    let done := timersub now_tv start_tv
    if done.1 > 0 ∨ done.2 ≥ period then wake_ts
    else FPS.setWake ((period - done.2) * 1000).toNat

/-- `FPS::delay`, its loop, with `wake_ts` as it is left. -/
def FPS.delayLoop (wake_ts : Timespec) : List Nanosleep → List SleepCall × Timespec
  | [] => ([⟨wake_ts, .slept⟩], .zero)
  | .slept :: _ => ([⟨wake_ts, .slept⟩], .zero)
  | .failed :: _ => ([⟨wake_ts, .failed⟩], .zero)
  | .EINTR remaining :: results =>
      -- the seconds stay those of the last call
      let wake : Timespec := ⟨wake_ts.tv_sec, remaining.tv_nsec, remaining.nsec_lt⟩
      if wake.tv_nsec > 0 then
        let (calls, left) := FPS.delayLoop wake results
        (⟨wake_ts, .EINTR remaining⟩ :: calls, left)
      else ([⟨wake_ts, .EINTR remaining⟩], wake)

theorem nsec_sub_lt {n : ℕ} (h : n < 10 ^ 9) (k : ℕ) : n - k < 10 ^ 9 := by omega

/-- `FPS::delay`, the 100 microseconds it takes off. -/
def FPS.lessBreath (wake_ts : Timespec) : Timespec :=
  if wake_ts.tv_nsec > 100000 then
    ⟨wake_ts.tv_sec, wake_ts.tv_nsec - 100000, nsec_sub_lt wake_ts.nsec_lt _⟩
  else wake_ts

/-- `FPS::delay` -/
def FPS.delay (wake_ts : Timespec) (results : List Nanosleep) : List SleepCall × Timespec :=
  FPS.delayLoop (FPS.lessBreath wake_ts) results

/-! ### `jsleep` -/

/-- `jsleep` -/
def jsleep (timelap : Timespec) : List Nanosleep → List SleepCall
  | [] => [⟨timelap, .slept⟩]
  | .slept :: _ => [⟨timelap, .slept⟩]
  | .failed :: _ => [⟨timelap, .failed⟩]
  | .EINTR remaining :: results => ⟨timelap, .EINTR remaining⟩ :: jsleep timelap results

/-! ### Going on where a sleep was interrupted -/

/-- The calls sleep for `t`: the first asks for `t`, one after an interruption asks for what
remained, and the last slept to its end, or nothing remained. -/
def Resumes (t : Timespec) : List SleepCall → Prop
  | [] => False
  | c :: calls =>
      c.asked = t ∧
        match c.result with
        | .slept => calls = []
        | .EINTR remaining => calls = [] ∧ remaining = .zero ∨ Resumes remaining calls
        | .failed => False

/-- **Sleeps add up.** -/
theorem Resumes.slept_eq {t : Timespec} {calls : List SleepCall} (h : Resumes t calls) :
    sleptIn calls = t.total := by
  induction calls generalizing t with
  | nil => exact absurd h id
  | cons c calls ih =>
      obtain ⟨asked, result⟩ := c
      obtain ⟨rfl, hrest⟩ := h
      cases result with
      | slept =>
          obtain rfl : calls = [] := hrest
          simp [sleptIn, SleepCall.slept]
      | EINTR remaining =>
          rcases hrest with ⟨rfl, rfl⟩ | hrest
          · rw [sleptIn_EINTR, Timespec.zero_total, sub_zero]
            simp [sleptIn]
          · rw [sleptIn_EINTR, ih hrest]
            ring
      | failed => exact absurd hrest id

/-- The signals let `delay` keep its seconds: each leaves nothing, which ends it, or leaves
the same seconds as were asked and some nanoseconds. -/
def KeepsSeconds : Timespec → List Timespec → Prop
  | _, [] => True
  | t, remaining :: rest =>
      remaining = .zero ∨
        remaining.tv_sec = t.tv_sec ∧ 0 < remaining.tv_nsec ∧ KeepsSeconds remaining rest

/-- Less than a second leaves less than a second. -/
theorem keepsSeconds_of_lt_second {t : Timespec} {rest : List Timespec} (ht : t.tv_sec = 0)
    (hrest : ∀ remaining ∈ rest, remaining.tv_sec = 0) : KeepsSeconds t rest := by
  induction rest generalizing t with
  | nil => trivial
  | cons remaining rest ih =>
      have hsec : remaining.tv_sec = 0 := hrest remaining (by simp)
      by_cases hnsec : 0 < remaining.tv_nsec
      · exact Or.inr ⟨hsec.trans ht.symm, hnsec, ih hsec fun r hr => hrest r (by simp [hr])⟩
      · left
        obtain ⟨sec, nsec, hlt⟩ := remaining
        obtain rfl : sec = 0 := hsec
        obtain rfl : nsec = 0 := by
          simpa using hnsec
        rfl

/-- The loop of `delay` makes a call, and the first is for the time in `wake_ts`. -/
theorem FPS.delayLoop_asked (t : Timespec) (results : List Nanosleep) :
    ∃ c calls, (FPS.delayLoop t results).1 = c :: calls ∧ c.asked = t := by
  cases results with
  | nil => exact ⟨_, _, rfl, rfl⟩
  | cons r results =>
      cases r with
      | slept => exact ⟨_, _, rfl, rfl⟩
      | EINTR remaining =>
          simp only [FPS.delayLoop]
          split_ifs <;> exact ⟨_, _, rfl, rfl⟩
      | failed => exact ⟨_, _, rfl, rfl⟩

theorem Resumes.asked {t t' : Timespec} {calls : List SleepCall} (h : Resumes t calls)
    (h' : ∃ c rest, calls = c :: rest ∧ c.asked = t') : t = t' := by
  obtain ⟨c, rest, rfl, hc⟩ := h'
  exact h.1.symm.trans hc

/-- **The loop of `delay`** goes on where it was interrupted if and only if the signals let it
keep its seconds. -/
theorem FPS.delayLoop_resumes (t : Timespec) (rest : List Timespec) :
    Resumes t (FPS.delayLoop t (rest.map .EINTR)).1 ↔ KeepsSeconds t rest := by
  induction rest generalizing t with
  | nil => simp [FPS.delayLoop, Resumes, KeepsSeconds]
  | cons remaining rest ih =>
      simp only [List.map_cons, FPS.delayLoop]
      split_ifs with hnsec
      · -- another call: it asks for the old seconds and the new nanoseconds
        have hasked := FPS.delayLoop_asked ⟨t.tv_sec, remaining.tv_nsec, remaining.nsec_lt⟩
          (rest.map .EINTR)
        constructor
        · rintro ⟨-, ⟨hnil, -⟩ | hrest⟩
          · obtain ⟨c, calls, hcons, -⟩ := hasked
            simp [hcons] at hnil
          · have hwake := hrest.asked hasked
            have hsec : remaining.tv_sec = t.tv_sec := by rw [hwake]
            rw [← hwake] at hrest
            exact Or.inr ⟨hsec, hnsec, (ih remaining).1 hrest⟩
        · rintro (rfl | ⟨hsec, -, hrest⟩)
          · exact absurd hnsec (Nat.lt_irrefl 0)
          · refine ⟨rfl, Or.inr ?_⟩
            rw [← hsec]
            exact (ih remaining).2 hrest
      · -- no nanoseconds: the loop ends
        constructor
        · rintro ⟨-, ⟨-, hzero⟩ | hrest⟩
          · exact Or.inl hzero
          · exact absurd hrest id
        · rintro (hzero | ⟨-, hpos, -⟩)
          · exact ⟨rfl, Or.inl ⟨rfl, hzero⟩⟩
          · exact absurd hpos hnsec

/-- **The loop of `jsleep`** goes on where it was interrupted if and only if it was never
interrupted after it had slept. -/
theorem jsleep_resumes (t : Timespec) (rest : List Timespec) :
    Resumes t (jsleep t (rest.map .EINTR)) ↔ ∀ remaining ∈ rest, remaining = t := by
  induction rest with
  | nil => simp [jsleep, Resumes]
  | cons remaining rest ih =>
      have hasked : ∃ c calls, jsleep t (rest.map .EINTR) = c :: calls ∧ c.asked = t := by
        cases rest <;> exact ⟨_, _, rfl, rfl⟩
      simp only [List.map_cons, jsleep, List.forall_mem_cons]
      constructor
      · rintro ⟨-, ⟨hnil, -⟩ | hrest⟩
        · obtain ⟨c, calls, hcons, -⟩ := hasked
          simp [hcons] at hnil
        · obtain rfl := hrest.asked hasked
          exact ⟨rfl, ih.1 hrest⟩
      · rintro ⟨rfl, hrest⟩
        exact ⟨rfl, Or.inr (ih.2 hrest)⟩

/-- What `delay` sets out to sleep. -/
theorem FPS.lessBreath_total (t : Timespec) :
    (FPS.lessBreath t).total = if 100000 < t.tv_nsec then t.total - 100000 else t.total := by
  unfold FPS.lessBreath
  split_ifs with h
  · simp only [Timespec.total]
    omega
  · rfl

/-- The delay that `calc` stores is the one that it worked out. -/
theorem FPS.setWake_total (nsec : ℕ) : (FPS.setWake nsec).total = nsec := by
  unfold FPS.setWake Timespec.total
  split_ifs with h <;> simp only <;> omega

/-- **Interrupted sleeps.** Whatever time is asked and whatever remains after each of finitely
many signals: `delay` asks for what remains, stops when nothing does, and sleeps the time it
was asked less its 100 microseconds, if and only if the signals let it keep its seconds;
`jsleep` does so if and only if none comes after it has slept at all. -/
theorem sleeps_iff (t : Timespec) (rest : List Timespec) :
    (Resumes (FPS.lessBreath t) (FPS.delay t (rest.map .EINTR)).1 ∧
        sleptIn (FPS.delay t (rest.map .EINTR)).1 =
          (if 100000 < t.tv_nsec then t.total - 100000 else t.total) ↔
      KeepsSeconds (FPS.lessBreath t) rest) ∧
    (Resumes t (jsleep t (rest.map .EINTR)) ∧ sleptIn (jsleep t (rest.map .EINTR)) = t.total ↔
      ∀ remaining ∈ rest, remaining = t) := by
  have hdelay := FPS.delayLoop_resumes (FPS.lessBreath t) rest
  have hjsleep := jsleep_resumes t rest
  constructor
  · constructor
    · exact fun h => hdelay.1 h.1
    · intro h
      have hres := hdelay.2 h
      exact ⟨hres, hres.slept_eq.trans (FPS.lessBreath_total t)⟩
  · constructor
    · exact fun h => hjsleep.1 h.1
    · intro h
      have hres := hjsleep.2 h
      exact ⟨hres, hres.slept_eq⟩

/-- Two seconds and a half, less 100 microseconds, with a signal after 0.6 seconds: `delay`
goes on for 2.9 seconds. Two seconds, with a signal after one: `jsleep` sleeps two more. -/
theorem sleeps_too_long :
    let t : Timespec := ⟨2, 500100000, by decide⟩
    let remaining : Timespec := ⟨1, 900000000, by decide⟩
    let calls := (FPS.delay t [.EINTR remaining]).1
    remaining.total ≤ t.total - 100000 ∧
      calls.map SleepCall.asked = [⟨2, 500000000, by decide⟩, ⟨2, 900000000, by decide⟩] ∧
      sleptIn calls = 3500000000 ∧ t.total - 100000 = 2500000000 ∧
      sleptIn (jsleep ⟨2, 0, by decide⟩ [.EINTR ⟨1, 0, by decide⟩]) = 3000000000 := by
  refine ⟨by decide, rfl, by decide, by decide, by decide⟩

end FreeJ
