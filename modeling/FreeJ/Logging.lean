import Mathlib.Data.Int.Basic
import FreeJ.Mutex
import FreeJ.Transition

/-!
# Logging

`logging.cpp`. `GlobalLogger` and every `Loggable` object have a log level, a logger that may
be registered and a mutex that is taken to register and to log. The mutexes are not
recursive: a thread that locks one it holds waits forever, and its call is `none`.

`register_logger` and `unregister_logger` log their error message before they unlock, and
they return from there without unlocking. This module proves that the mutexes stay free as
long as these two calls succeed, and that one that does not is never as it should be.

## Main results

* `Logging.vlog_eq`, `Logging.register_eq`, `Logging.unregister_eq`: what the calls do while
  no mutex is held.
* `logging_returns_iff`: in every run in which loggers are registered and unregistered in
  turn a call is as it should be if and only if it does not fail.
-/

namespace FreeJ

open Function (update)
open Transition

/-- `MAX_LOG_MSG` -/
def MAX_LOG_MSG : ℕ := 1024

/-- `enum LogLevel`, ordered by increasing verbosity -/
inductive LogLevel
  | QUIET
  | ERROR
  | NOTICE
  | INFO
  | WARNING
  | DEBUG
  deriving DecidableEq, Repr

/-- The number of a level. -/
def LogLevel.value : LogLevel → ℕ
  | QUIET => 0
  | ERROR => 1
  | NOTICE => 2
  | INFO => 3
  | WARNING => 4
  | DEBUG => 5

/-- What a message starts with on `stderr`. -/
def LogLevel.prefix_of : LogLevel → String
  | ERROR => "[!]"
  | WARNING => "[W]"
  | NOTICE => "[*]"
  | INFO => " . "
  | DEBUG => "[F]"
  | QUIET => "[WTF?]"

/-- The fields that `GlobalLogger` and a `Loggable` have in common. -/
structure LogFields (Lg : Type*) where
  /-- The registered logger, or a null pointer. -/
  logger_ : Option Lg
  loglevel_ : LogLevel
  logger_mutex_ : Option Unit

/-- Where a message went: to a logger, to the console, or to `stderr` behind its prefix. -/
inductive LogLine (Lg : Type*)
  | logger (l : Lg) (level : LogLevel) (msg : String)
  | console (msg : String)
  | stderr (pre msg : String)
  deriving DecidableEq

/-- `GlobalLogger`, at `none`, and the `Loggable` objects. -/
structure Logging (O Lg : Type*) where
  fields : Option O → LogFields Lg
  /-- A console was set in `GlobalLogger`. -/
  console_ : Bool
  printed : List (LogLine Lg)

namespace Logging

variable {O Lg : Type*} [DecidableEq O]

/-- Lock a mutex. -/
def lock (s : Logging O Lg) (o : Option O) : Option (Logging O Lg) :=
  (Mutex.lock (s.fields o).logger_mutex_ ()).map fun m =>
    { s with fields := update s.fields o { s.fields o with logger_mutex_ := m } }

/-- Unlock a mutex. -/
def unlock (s : Logging O Lg) (o : Option O) : Logging O Lg :=
  { s with fields := update s.fields o { s.fields o with logger_mutex_ := none } }

/-- Set a logger. -/
def setLogger (s : Logging O Lg) (o : Option O) (l : Option Lg) : Logging O Lg :=
  { s with fields := update s.fields o { s.fields o with logger_ := l } }

/-- Print a message. -/
def print (s : Logging O Lg) (line : LogLine Lg) : Logging O Lg :=
  { s with printed := s.printed ++ [line] }

/-- `GlobalLogger::vprintlog`; `reply` is what the `vprintlog` of a logger returns. -/
def vprintlog (s : Logging O Lg) (level : LogLevel) (msg : String) (reply : Lg → ℤ) :
    Option (ℤ × Logging O Lg) :=
  if level.value ≤ (s.fields none).loglevel_.value then
    (s.lock none).map fun s =>
      match (s.fields none).logger_ with
      | some l => (reply l, (s.print (.logger l level msg)).unlock none)
      | none =>
        let logbuf_ := String.ofList (msg.toList.take (MAX_LOG_MSG - 1))
        if s.console_ then (0, (s.print (.console logbuf_)).unlock none)
        else (0, (s.print (.stderr level.prefix_of logbuf_)).unlock none)
  else some (0, s)

/-- `Loggable::vlog` -/
def vlogObject (s : Logging O Lg) (o : O) (level : LogLevel) (msg : String) (reply : Lg → ℤ) :
    Option (ℤ × Logging O Lg) :=
  if level.value ≤ (s.fields (some o)).loglevel_.value then
    (s.lock (some o)).bind fun s =>
      match (s.fields (some o)).logger_ with
      | some l => some (reply l, (s.print (.logger l level msg)).unlock (some o))
      | none => (s.vprintlog level msg reply).map fun (rv, s) => (rv, s.unlock (some o))
  else some (0, s)

/-- `GlobalLogger::vprintlog` or `Loggable::vlog` -/
def vlog (s : Logging O Lg) (o : Option O) (level : LogLevel) (msg : String)
    (reply : Lg → ℤ) : Option (ℤ × Logging O Lg) :=
  match o with
  | none => s.vprintlog level msg reply
  | some o => s.vlogObject o level msg reply

/-- What `__PRETTY_FUNCTION__` starts with. -/
def pretty : Option O → String
  | none => "static bool GlobalLogger::"
  | some _ => "bool Loggable::"

/-- `register_logger`, of both classes -/
def register_logger (s : Logging O Lg) (o : Option O) (l : Option Lg) (reply : Lg → ℤ) :
    Option (Bool × Logging O Lg) :=
  (s.lock o).bind fun s =>
    if (s.fields o).logger_.isSome then
      (s.vlog o .ERROR (pretty o ++ "register_logger(Logger*)" ++
        ": a logger has already been registered") reply).map fun (_, s) => (false, s)
    else some (true, (s.setLogger o l).unlock o)

/-- `unregister_logger`, of both classes -/
def unregister_logger [DecidableEq Lg] (s : Logging O Lg) (o : Option O) (l : Option Lg)
    (reply : Lg → ℤ) : Option (Bool × Logging O Lg) :=
  (s.lock o).bind fun s =>
    if (s.fields o).logger_ ≠ l then
      (s.vlog o .ERROR (pretty o ++ "unregister_logger(Logger*)" ++
        ": trying to unregister a non-registered logger") reply).map fun (_, s) => (false, s)
    else some (true, (s.setLogger o none).unlock o)

/-- `set_loglevel`, of both classes -/
def set_loglevel (s : Logging O Lg) (o : Option O) (level : LogLevel) : Logging O Lg :=
  { s with fields := update s.fields o { s.fields o with loglevel_ := level } }

/-- The beginning, with a console or without. -/
def init (console_ : Bool) : Logging O Lg where
  fields := fun _ => { logger_ := none, loglevel_ := .INFO, logger_mutex_ := none }
  console_ := console_
  printed := []

/-- No mutex is held. -/
def Unlocked (s : Logging O Lg) : Prop :=
  ∀ o, (s.fields o).logger_mutex_ = none

variable {s : Logging O Lg} {o : Option O} {level : LogLevel} {msg : String} {reply : Lg → ℤ}
  {l : Option Lg}

/-- The state in which the thread holds a mutex. -/
def locked (s : Logging O Lg) (o : Option O) : Logging O Lg :=
  { s with fields := update s.fields o { s.fields o with logger_mutex_ := some () } }

theorem lock_free (h : (s.fields o).logger_mutex_ = none) : s.lock o = some (s.locked o) := by
  simp [lock, locked, h]

theorem lock_held (h : (s.fields o).logger_mutex_ ≠ none) : s.lock o = none := by
  obtain ⟨u, hu⟩ := Option.ne_none_iff_exists'.mp h
  simp [lock, hu, Mutex.lock]

theorem fields_locked (s : Logging O Lg) (o : Option O) :
    (s.locked o).fields o = { s.fields o with logger_mutex_ := some () } := by
  simp [locked]

theorem fields_locked_of_ne {o' : Option O} (h : o' ≠ o) :
    (s.locked o).fields o' = s.fields o' := by
  simp [locked, h]

/-- Unlocking undoes locking, whatever was printed in between. -/
theorem unlock_fields_locked (h : (s.fields o).logger_mutex_ = none) {t : Logging O Lg}
    (ht : t.fields = (s.locked o).fields) : (t.unlock o).fields = s.fields := by
  simp only [unlock, ht, locked, Function.update_self, Function.update_idem]
  rw [← h, Function.update_eq_self]

/-- **Logging while no mutex is held** returns, and changes what was printed only. -/
theorem vlog_eq (h : Unlocked s) (o : Option O) (level : LogLevel) (msg : String)
    (reply : Lg → ℤ) :
    ∃ rv t, s.vlog o level msg reply = some (rv, t) ∧ t.fields = s.fields := by
  have hglobal : ∀ u : Logging O Lg, (u.fields none).logger_mutex_ = none →
      ∃ rv t, u.vprintlog level msg reply = some (rv, t) ∧ t.fields = u.fields := by
    intro u hu
    simp only [vprintlog]
    split
    · rw [lock_free hu, Option.map_some]
      split
      · exact ⟨_, _, rfl, unlock_fields_locked hu rfl⟩
      · split <;> exact ⟨_, _, rfl, unlock_fields_locked hu rfl⟩
    · exact ⟨_, _, rfl, rfl⟩
  cases o with
  | none => exact hglobal s (h none)
  | some o =>
      simp only [vlog, vlogObject]
      split
      · rw [lock_free (h (some o)), Option.bind_some]
        split
        · exact ⟨_, _, rfl, unlock_fields_locked (h (some o)) rfl⟩
        · obtain ⟨rv, t, ht, hf⟩ := hglobal (s.locked (some o))
            (by rw [fields_locked_of_ne (by simp)]; exact h none)
          rw [ht, Option.map_some]
          exact ⟨_, _, rfl, unlock_fields_locked (h (some o)) hf⟩
      · exact ⟨_, _, rfl, rfl⟩

/-- **Logging while the own mutex is held** waits for it, unless nothing is logged. -/
theorem vlog_locked (s : Logging O Lg) (o : Option O) (level : LogLevel) (msg : String)
    (reply : Lg → ℤ) :
    (s.locked o).vlog o level msg reply =
      if level.value ≤ (s.fields o).loglevel_.value then none else some (0, s.locked o) := by
  have hheld : (s.locked o).lock o = none := lock_held (by simp [fields_locked])
  cases o with
  | none => simp only [vlog, vprintlog, hheld, fields_locked, Option.map_none]
  | some o => simp only [vlog, vlogObject, hheld, fields_locked, Option.bind_none]

/-- **What `register_logger` does while no mutex is held.** When it fails it waits for the
mutex it holds, or at level `QUIET` returns with it. -/
theorem register_eq (h : Unlocked s) (o : Option O) (l : Option Lg) (reply : Lg → ℤ) :
    (∃ t, (s.fields o).logger_ = none ∧ s.register_logger o l reply = some (true, t) ∧
      Unlocked t) ∨
    ((s.fields o).logger_ ≠ none ∧
      (s.register_logger o l reply = none ∨
        s.register_logger o l reply = some (false, s.locked o))) := by
  simp only [register_logger, lock_free (h o), Option.bind_some, fields_locked]
  by_cases hl : (s.fields o).logger_ = none
  · refine .inl ⟨_, hl, by simp [hl]; rfl, fun o' => ?_⟩
    by_cases ho : o' = o
    · simp [unlock, ho]
    · simpa [unlock, setLogger, locked, ho] using h o'
  · refine .inr ⟨hl, ?_⟩
    rw [if_pos (Option.isSome_iff_ne_none.mpr hl), vlog_locked]
    split
    · exact .inl rfl
    · exact .inr rfl

/-- **What `unregister_logger` does while no mutex is held.** -/
theorem unregister_eq [DecidableEq Lg] (h : Unlocked s) (o : Option O) (l : Option Lg)
    (reply : Lg → ℤ) :
    (∃ t, (s.fields o).logger_ = l ∧ s.unregister_logger o l reply = some (true, t) ∧
      Unlocked t) ∨
    ((s.fields o).logger_ ≠ l ∧
      (s.unregister_logger o l reply = none ∨
        s.unregister_logger o l reply = some (false, s.locked o))) := by
  simp only [unregister_logger, lock_free (h o), Option.bind_some, fields_locked]
  by_cases hl : (s.fields o).logger_ = l
  · refine .inl ⟨_, hl, by rw [if_neg (not_not.mpr hl)], fun o' => ?_⟩
    by_cases ho : o' = o
    · simp [unlock, ho]
    · simpa [unlock, setLogger, locked, ho] using h o'
  · refine .inr ⟨hl, ?_⟩
    rw [if_pos hl, vlog_locked]
    split
    · exact .inl rfl
    · exact .inr rfl

end Logging

/-- The calls, each with what the `vprintlog` of a logger returns if it is called. -/
inductive LogCall (O Lg : Type*)
  | register_logger (o : Option O) (l : Option Lg) (reply : Lg → ℤ)
  | unregister_logger (o : Option O) (l : Option Lg) (reply : Lg → ℤ)
  | set_loglevel (o : Option O) (level : LogLevel)
  | log (o : Option O) (level : LogLevel) (msg : String) (reply : Lg → ℤ)

namespace Logging

variable {O Lg : Type*} [DecidableEq O] [DecidableEq Lg]

/-- A call, by which every function returns an integer. -/
def call (s : Logging O Lg) : LogCall O Lg → Option (ℤ × Logging O Lg)
  | .register_logger o l reply => (s.register_logger o l reply).map fun (b, s) => (b.toInt, s)
  | .unregister_logger o l reply => (s.unregister_logger o l reply).map fun (b, s) => (b.toInt, s)
  | .set_loglevel o level => some (0, s.set_loglevel o level)
  | .log o level msg reply => s.vlog o level msg reply

/-- The runs of one thread; a call that does not return ends its run. -/
def system : System (Logging O Lg) (LogCall O Lg) where
  init s := ∃ console_, s = init console_
  step s call t := ∃ rv, s.call call = some (rv, t)

/-- What the result of a call has to be: it fails, changing nothing, exactly when a logger
is registered already, or is not the one that is registered. -/
def Answers (s : Logging O Lg) (rv : ℤ) (t : Logging O Lg) : LogCall O Lg → Prop
  | .register_logger o _ _ =>
      (rv = 0 ↔ (s.fields o).logger_ ≠ none) ∧ (rv = 0 → t.fields = s.fields)
  | .unregister_logger o l _ =>
      (rv = 0 ↔ (s.fields o).logger_ ≠ l) ∧ (rv = 0 → t.fields = s.fields)
  | _ => True

/-- A call is as it should be: it returns, the mutexes are free then, and its result is
right. -/
def Returns (s : Logging O Lg) (call : LogCall O Lg) : Prop :=
  ∃ rv t, s.call call = some (rv, t) ∧ Unlocked t ∧ s.Answers rv t call

/-- A call that does not fail: a logger is registered where none is, and the one that is
registered is unregistered. -/
def Succeeds (s : Logging O Lg) : LogCall O Lg → Prop
  | .register_logger o _ _ => (s.fields o).logger_ = none
  | .unregister_logger o l _ => (s.fields o).logger_ = l
  | _ => True

variable {s : Logging O Lg} {call : LogCall O Lg}

omit [DecidableEq Lg] in
/-- A call that succeeds under a condition and otherwise does not return, or returns with a
mutex held, answers as it should under that condition. -/
theorem answers_iff {o : Option O} {P : Prop} {r : Option (Bool × Logging O Lg)}
    (h : (∃ t, P ∧ r = some (true, t) ∧ Unlocked t) ∨
      (¬ P ∧ (r = none ∨ r = some (false, s.locked o)))) :
    (∃ rv t, (r.map fun (b, s) => (b.toInt, s)) = some (rv, t) ∧ Unlocked t ∧
      (rv = 0 ↔ ¬ P) ∧ (rv = 0 → t.fields = s.fields)) ↔ P := by
  obtain ⟨t, hP, rfl, hu⟩ | ⟨hP, rfl | rfl⟩ := h
  · exact iff_of_true ⟨_, t, rfl, hu, by simp [hP], by simp⟩ hP
  · refine iff_of_false ?_ hP
    rintro ⟨rv, t, ht, -⟩
    simp at ht
  · refine iff_of_false ?_ hP
    rintro ⟨rv, t, ht, hu, -⟩
    simp only [Option.map_some, Option.some.injEq, Prod.mk.injEq] at ht
    have hfree := hu o
    rw [← ht.2, fields_locked] at hfree
    cases hfree

/-- While no mutex is held, the calls that are as they should be are those that succeed. -/
theorem returns_iff (h : Unlocked s) : s.Returns call ↔ s.Succeeds call := by
  cases call with
  | register_logger o l reply => exact answers_iff (register_eq h o l reply)
  | unregister_logger o l reply => exact answers_iff (unregister_eq h o l reply)
  | set_loglevel o level =>
      refine iff_of_true ⟨0, _, rfl, fun o' => ?_, trivial⟩ trivial
      by_cases ho : o' = o
      · subst ho
        simpa [set_loglevel] using h o'
      · simpa [set_loglevel, ho] using h o'
  | log o level msg reply =>
      obtain ⟨rv, t, ht, hf⟩ := vlog_eq h o level msg reply
      exact iff_of_true ⟨rv, t, ht, fun o' => by rw [hf]; exact h o', trivial⟩ trivial

omit [DecidableEq O] [DecidableEq Lg] in
/-- No mutex is held before any call. -/
theorem unlocked_init (console_ : Bool) : Unlocked (init console_ : Logging O Lg) :=
  fun _ => rfl

/-- Between calls that succeed no mutex is held. -/
theorem unlocked_reachable (h : Reachable (system.restrict Succeeds) s) : Unlocked s := by
  induction h with
  | init h0 =>
      obtain ⟨console_, rfl⟩ := h0
      exact unlocked_init console_
  | step _ hst ih =>
      obtain ⟨hs, rv, ht⟩ := hst
      obtain ⟨rv', t', ht', hu, -⟩ := (returns_iff ih).mpr hs
      rw [ht, Option.some.injEq, Prod.mk.injEq] at ht'
      exact ht'.2 ▸ hu

/-- **The logging lock.** In every run in which no logger is registered over another and none
is unregistered that is not registered, no mutex is held between the calls, and a further
call is as it should be if and only if it is no such call either. -/
theorem logging_returns_iff (h : Reachable (system.restrict Succeeds) s) :
    Unlocked s ∧ ∀ call, s.Returns call ↔ s.Succeeds call :=
  ⟨unlocked_reachable h, fun _ => returns_iff (unlocked_reachable h)⟩

/-- A global logger is registered at the beginning. -/
theorem logging_returns_register :
    (init false : Logging Unit ℕ).Returns (.register_logger none (some 1) fun _ => 0) :=
  ((logging_returns_iff (.init ⟨false, rfl⟩)).2 (.register_logger none (some 1) fun _ => 0)).mpr rfl

/-- The state in which a global logger is registered. -/
def registered : Logging Unit ℕ :=
  (((init false).register_logger none (some 1) fun _ => 0).map Prod.snd).getD (init false)

/-- A second logger is registered over the first one: the thread waits for itself. -/
theorem register_deadlocks :
    Reachable system registered ∧
      ¬ registered.Returns (.register_logger none (some 2) fun _ => 0) := by
  constructor
  · exact .step (.init ⟨false, rfl⟩) (a := .register_logger none (some 1) fun _ => 0) ⟨1, rfl⟩
  · rintro ⟨rv, t, ht, -⟩
    have hwaits : registered.call (.register_logger none (some 2) fun _ => 0) = none := rfl
    rw [hwaits] at ht
    cases ht

end Logging

end FreeJ
