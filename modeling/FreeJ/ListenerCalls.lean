import Mathlib.Data.List.GetD
import Mathlib.Tactic.Ring
import FreeJ.CString

/-!
# Calls of the Listeners

`Controller::JSCall` of `controller.cpp`, which calls a function of every listener, with
values of the JavaScript engine or with C arguments that a format string describes, and
`ControllerListener::call`. What the function of a listener comes to may depend on all the
calls made before.

The C arguments are words in memory that a cursor, the `va_list`, runs over; one word is taken
for each letter of the format. The format variant ends the use of the cursor before the first
listener, and then takes the arguments of each listener from where the cursor is. Where
`va_end` leaves it, what stands behind the arguments and what is in a counter that is not
initialised are given from outside.

## Main results

* `Controller.JSCall_eq`: what the count of the value variant is.
* `JSCall_format_iff`: exactly when both variants make the same calls and return the same count.
-/

namespace FreeJ

/-- A call of a function of a listener. -/
structure ListenerCall (L J : Type*) where
  listener : L
  funcname : CString
  argc : ℕ
  argv : List J
  deriving DecidableEq

/-- What a call comes to: the listener has no such function, or it fails, or it returns. -/
inductive CallOutcome
  | unresolved
  | failed
  | returned
  deriving DecidableEq

/-- `ControllerListener::call` -/
def ControllerListener.call : CallOutcome → Bool
  | .unresolved => false
  | .failed => false
  | .returned => true

/-- The calls made so far, and `res`. -/
@[ext] structure JSCalls (L J : Type*) where
  made : List (ListenerCall L J)
  res : ℤ

namespace Controller

variable {L J W : Type*}
variable (js : List (ListenerCall L J) → CallOutcome) (conv : CHAR → W → J)

/-- A listener is called, and counted when that succeeds. -/
def callListener (s : JSCalls L J) (c : ListenerCall L J) : JSCalls L J :=
  let made := s.made ++ [c]
  { made := made
    res := if ControllerListener.call (js made) then s.res + 1 else s.res }

/-- `Controller::JSCall(funcname, argc, argv)` -/
def JSCall (listeners : List L) (funcname : CString) (argc : ℕ) (argv : List J) : JSCalls L J :=
  listeners.foldl (fun s listener => callListener js s ⟨listener, funcname, argc, argv⟩) ⟨[], 0⟩

/-- `JS_PushArgumentsVA`: the values for the letters of `format`, and the cursor behind the
words that were taken. -/
def JS_PushArgumentsVA (word : ℕ → W) : List CHAR → ℕ → List J × ℕ
  | [], args => ([], args)
  | c :: format, args =>
      let (vs, args') := JS_PushArgumentsVA word format (args + 1)
      (conv c (word args) :: vs, args')

/-- `Controller::JSCall(funcname, argc, format, ...)`, its loop. -/
def formatLoop (word : ℕ → W) (funcname : CString) (argc : ℕ) (format : List CHAR) :
    List L → ℕ → JSCalls L J → JSCalls L J
  | [], _, s => s
  | listener :: listeners, args, s =>
      let (argv, args) := JS_PushArgumentsVA conv word format args
      formatLoop word funcname argc format listeners args
        (callListener js s ⟨listener, funcname, argc, argv⟩)

/-- `Controller::JSCall(funcname, argc, format, ...)`, where `va_end` leaves the cursor at
`args` and `res` is not initialised. -/
def JSCall_format (listeners : List L) (funcname : CString) (argc : ℕ) (format : List CHAR)
    (word : ℕ → W) (args : ℕ) (res : ℤ) : JSCalls L J :=
  formatLoop js conv word funcname argc format listeners args ⟨[], res⟩

/-- The words in memory: the arguments of the call, and what stands behind them. -/
def stack (args : List W) (beyond : ℕ → W) (i : ℕ) : W := args.getD i (beyond i)

/-! ### The value variant -/

/-- The calls that a list of listeners gets with the same arguments. -/
def callsOf (listeners : List L) (funcname : CString) (argc : ℕ) (argv : List J) :
    List (ListenerCall L J) :=
  listeners.map fun listener => ⟨listener, funcname, argc, argv⟩

/-- How many of the calls `made` succeeded. -/
def successes (made : List (ListenerCall L J)) : ℕ :=
  (List.range made.length).countP fun k => ControllerListener.call (js (made.take (k + 1)))

theorem successes_concat (made : List (ListenerCall L J)) (c : ListenerCall L J) :
    successes js (made ++ [c]) =
      successes js made + if ControllerListener.call (js (made ++ [c])) then 1 else 0 := by
  unfold successes
  rw [List.length_append, List.length_singleton, List.range_succ, List.countP_append,
    List.countP_singleton]
  congr 1
  · apply List.countP_congr
    intro k hk
    rw [List.mem_range] at hk
    rw [List.take_append_of_le_length (by omega)]
  · rw [List.take_of_length_le (by simp)]

theorem callListener_made (s : JSCalls L J) (c : ListenerCall L J) :
    (callListener js s c).made = s.made ++ [c] := rfl

/-- A call adds one to the count if it succeeds. -/
theorem callListener_res (s : JSCalls L J) (c : ListenerCall L J) :
    (callListener js s c).res + successes js s.made = s.res + successes js (s.made ++ [c]) := by
  rw [successes_concat]
  simp only [callListener]
  split_ifs <;> push_cast <;> ring

/-- Calling a list of listeners one after the other counts the calls that succeed. -/
theorem foldl_callListener (calls : List (ListenerCall L J)) (s : JSCalls L J) :
    (calls.foldl (callListener js) s).made = s.made ++ calls ∧
      (calls.foldl (callListener js) s).res + successes js s.made =
        s.res + successes js (s.made ++ calls) := by
  induction calls generalizing s with
  | nil => simp
  | cons c calls ih =>
      obtain ⟨hmade, hres⟩ := ih (callListener js s c)
      have hstep := callListener_res js s c
      have hassoc : s.made ++ [c] ++ calls = s.made ++ c :: calls := by simp
      rw [callListener_made, hassoc] at hmade hres
      rw [List.foldl_cons]
      exact ⟨hmade, by omega⟩

/-- The calls of a loop that starts with none, and its count. -/
theorem foldl_callListener_nil (calls : List (ListenerCall L J)) (res : ℤ) :
    calls.foldl (callListener js) ⟨[], res⟩ = ⟨calls, res + successes js calls⟩ := by
  obtain ⟨hmade, hres⟩ := foldl_callListener js calls ⟨[], res⟩
  have hnone : successes js ([] : List (ListenerCall L J)) = 0 := rfl
  ext1
  · exact hmade
  · rw [hnone] at hres
    simpa using hres

/-- What the value variant does. -/
theorem JSCall_eq (listeners : List L) (funcname : CString) (argc : ℕ) (argv : List J) :
    JSCall js listeners funcname argc argv =
      ⟨callsOf listeners funcname argc argv,
        successes js (callsOf listeners funcname argc argv)⟩ := by
  rw [JSCall, ← List.foldl_map (f := fun listener => ⟨listener, funcname, argc, argv⟩)
    (g := callListener js)]
  simpa [callsOf] using foldl_callListener_nil js (callsOf listeners funcname argc argv) 0

/-! ### The format variant -/

variable {conv}

/-- As many words are taken as the format has letters. -/
theorem JS_PushArgumentsVA_cursor (word : ℕ → W) (format : List CHAR) (args : ℕ) :
    (JS_PushArgumentsVA conv word format args).2 = args + format.length := by
  induction format generalizing args with
  | nil => rfl
  | cons c format ih =>
      simp only [JS_PushArgumentsVA, List.length_cons]
      rw [ih]
      ring

/-- The words at the cursor are converted to given values. -/
theorem JS_PushArgumentsVA_eq_iff (word : ℕ → W) (as : List (CHAR × W)) (args : ℕ) :
    (JS_PushArgumentsVA conv word (as.map Prod.fst) args).1 = as.map (fun a => conv a.1 a.2) ↔
      ∀ i, (h : i < as.length) →
        conv (as.get ⟨i, h⟩).1 (word (args + i)) = conv (as.get ⟨i, h⟩).1 (as.get ⟨i, h⟩).2 := by
  induction as generalizing args with
  | nil => simp [JS_PushArgumentsVA]
  | cons a as ih =>
      simp only [List.map_cons, JS_PushArgumentsVA, List.cons.injEq]
      rw [ih]
      constructor
      · rintro ⟨hfirst, hrest⟩ i hi
        cases i with
        | zero => exact hfirst
        | succ i =>
            have h := hrest i (Nat.lt_of_succ_lt_succ hi)
            rwa [Nat.add_right_comm, Nat.add_assoc] at h
      · intro h
        refine ⟨h 0 (Nat.zero_lt_succ _), fun i hi => ?_⟩
        have hnext := h (i + 1) (Nat.succ_lt_succ hi)
        rwa [← Nat.add_assoc, Nat.add_right_comm] at hnext

/-- The calls of the format variant: each listener gets what is at the cursor by then. -/
def formatCalls (conv : CHAR → W → J) (word : ℕ → W) (funcname : CString) (argc : ℕ)
    (format : List CHAR) : List L → ℕ → List (ListenerCall L J)
  | [], _ => []
  | listener :: listeners, args =>
      ⟨listener, funcname, argc, (JS_PushArgumentsVA conv word format args).1⟩ ::
        formatCalls conv word funcname argc format listeners (args + format.length)

theorem formatLoop_eq (word : ℕ → W) (funcname : CString) (argc : ℕ) (format : List CHAR)
    (listeners : List L) (args : ℕ) (s : JSCalls L J) :
    formatLoop js conv word funcname argc format listeners args s =
      (formatCalls conv word funcname argc format listeners args).foldl (callListener js) s := by
  induction listeners generalizing args s with
  | nil => rfl
  | cons listener listeners ih =>
      simp only [formatLoop, formatCalls, List.foldl_cons]
      rw [ih, JS_PushArgumentsVA_cursor]

/-- What the format variant does. -/
theorem JSCall_format_eq (listeners : List L) (funcname : CString) (argc : ℕ)
    (format : List CHAR) (word : ℕ → W) (args : ℕ) (res : ℤ) :
    JSCall_format js conv listeners funcname argc format word args res =
      ⟨formatCalls conv word funcname argc format listeners args,
        res + successes js (formatCalls conv word funcname argc format listeners args)⟩ := by
  rw [JSCall_format, formatLoop_eq, foldl_callListener_nil]

/-- The calls are those with the converted arguments if each listener finds words that are
converted to the same values, where the cursor is by then. -/
theorem formatCalls_eq_iff (word : ℕ → W) (funcname : CString) (argc : ℕ)
    (as : List (CHAR × W)) (listeners : List L) (args : ℕ) :
    formatCalls conv word funcname argc (as.map Prod.fst) listeners args =
        callsOf listeners funcname argc (as.map fun a => conv a.1 a.2) ↔
      ∀ j < listeners.length, ∀ i, (h : i < as.length) →
        conv (as.get ⟨i, h⟩).1 (word (args + j * as.length + i)) =
          conv (as.get ⟨i, h⟩).1 (as.get ⟨i, h⟩).2 := by
  induction listeners generalizing args with
  | nil => simp [formatCalls, callsOf]
  | cons listener listeners ih =>
      simp only [callsOf] at ih
      simp only [formatCalls, callsOf, List.map_cons, List.cons.injEq, ListenerCall.mk.injEq,
        true_and, List.length_map]
      rw [JS_PushArgumentsVA_eq_iff, ih]
      constructor
      · rintro ⟨hfirst, hrest⟩ j hj i hi
        cases j with
        | zero => simpa using hfirst i hi
        | succ j =>
            have h := hrest j (Nat.lt_of_succ_lt_succ hj) i hi
            rwa [show args + as.length + j * as.length = args + (j + 1) * as.length by ring] at h
      · intro h
        refine ⟨fun i hi => ?_, fun j hj i hi => ?_⟩
        · simpa using h 0 (Nat.zero_lt_succ _) i hi
        · have hnext := h (j + 1) (Nat.succ_lt_succ hj) i hi
          rwa [show args + (j + 1) * as.length = args + as.length + j * as.length by ring] at hnext

end Controller

open Controller in
/-- **The two variants.** Whatever the listeners and whatever their functions come to: the
format variant makes the calls that the value variant makes with the converted arguments and
returns the same count, which is the number of calls that succeed, if and only if its counter
happens to start at 0 and the words that the cursor gets to for each listener are converted to
the same values as the arguments. -/
theorem JSCall_format_iff {L J W : Type*} (js : List (ListenerCall L J) → CallOutcome)
    (conv : CHAR → W → J) (listeners : List L) (funcname : CString) (as : List (CHAR × W))
    (beyond : ℕ → W) (args : ℕ) (res : ℤ) :
    let argv := as.map fun a => conv a.1 a.2
    let word := stack (as.map Prod.snd) beyond
    let calls := callsOf listeners funcname as.length argv
    JSCall js listeners funcname as.length argv = ⟨calls, successes js calls⟩ ∧
      (JSCall_format js conv listeners funcname as.length (as.map Prod.fst) word args res =
          JSCall js listeners funcname as.length argv ↔
        res = 0 ∧ ∀ j < listeners.length, ∀ i, (h : i < as.length) →
          conv (as.get ⟨i, h⟩).1 (word (args + j * as.length + i)) =
            conv (as.get ⟨i, h⟩).1 (as.get ⟨i, h⟩).2) := by
  intro argv word calls
  have hvalue := JSCall_eq js listeners funcname as.length argv
  refine ⟨hvalue, ?_⟩
  rw [hvalue, JSCall_format_eq, ← formatCalls_eq_iff word funcname as.length as listeners args,
    JSCalls.mk.injEq]
  constructor
  · rintro ⟨hmade, hres⟩
    rw [hmade] at hres
    exact ⟨by omega, hmade⟩
  · rintro ⟨rfl, hmade⟩
    exact ⟨hmade, by rw [hmade, zero_add]⟩

open Controller in
/-- Two listeners whose functions return, called with one integer: the second one is called
with the word behind it. Without listeners, whatever is in the counter is returned. -/
theorem JSCall_format_differs :
    let js : List (ListenerCall ℕ ℤ) → CallOutcome := fun _ => .returned
    let conv : CHAR → ℤ → ℤ := fun _ word => word
    let name := CString.ofString "button"
    JSCall js [1, 2] name 1 [5] = ⟨[⟨1, name, 1, [5]⟩, ⟨2, name, 1, [5]⟩], 2⟩ ∧
      JSCall_format js conv [1, 2] name 1 [0x69] (stack [5] fun _ => 7) 0 0 =
        ⟨[⟨1, name, 1, [5]⟩, ⟨2, name, 1, [7]⟩], 2⟩ ∧
      JSCall js [] name 1 [5] = ⟨[], 0⟩ ∧
      JSCall_format js conv [] name 1 [0x69] (stack [5] fun _ => 7) 0 42 = ⟨[], 42⟩ := by
  intro js conv name
  exact ⟨rfl, rfl, rfl, rfl⟩

end FreeJ
