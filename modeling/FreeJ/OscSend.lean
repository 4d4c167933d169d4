import Mathlib.Data.Rat.Defs
import FreeJ.OscCtrl

/-!
# Sending OSC Messages

`js_osc_ctrl_send` of `osc_ctrl.cpp`, called by a script with a path, a string of types and
the arguments, one for each type. A string is a pointer, and what stands in the memory there
goes on behind the character that ends it, as the array of arguments does behind the last
one. What is read of both is recorded.

The values of a script and what they are converted to are those of the JavaScript engine.

## Main results

* `OscSend.step_of_lt`, `OscSend.step_length`: which argument a round of the loop adds.
* `osc_send_iff`: the message is the one that was asked for, and nothing is read beyond the
  types and the arguments, if and only if there are none.
-/

namespace FreeJ

/-- `js_get_int`, `js_get_double`, `js_get_string` and the cast of a `jsdouble` to `float`. -/
structure JsGet (V S D F : Type*) where
  js_get_int : V → ℤ
  js_get_double : V → D
  js_get_string : V → S
  float : D → F

/-- An argument of a `lo_message`. -/
inductive LoArg (S F : Type*)
  | int32 (i : ℤ)
  | float (f : F)
  | string (s : S)
  deriving DecidableEq

/-- What is read: a character of the types, or a value of the script. -/
inductive OscRead
  | type (i : ℕ)
  | argv (i : ℕ)
  deriving DecidableEq

/-- `lo_send_message_from`, and what was read before. -/
structure OscSent (S F : Type*) where
  path : S
  outmsg : List (LoArg S F)
  reads : List OscRead

section Send

variable {V S D F : Type*} (js : JsGet V S D F) (mem : S → ℕ → CHAR) (argv : ℕ → V)

/-- `js_osc_ctrl_send`, one round of its loop: what is read, and what is added. -/
def OscSend.step (type : S) (c : ℕ) : List OscRead × List (LoArg S F) :=
  if mem type c = 0x69 then ([.type c, .argv c], [.int32 (js.js_get_int (argv c))])
  else if mem type c = 0x66 then
    ([.type c, .argv c], [.float (js.float (js.js_get_double (argv c)))])
  else if mem type c = 0x73 then
    ([.type c, .argv (c + 1)], [.string (js.js_get_string (argv (c + 1)))])
  else ([.type c], []) -- unrecognized type

/-- `js_osc_ctrl_send`, what it returns, and the message when it sends one. -/
def js_osc_ctrl_send (osc : Bool) (argc : ℕ) : Bool × Option (OscSent S F) :=
  if argc < 2 then (false, none) -- not enough arguments
  else if osc = false then (false, none) -- OSC core data is NULL
  else
    let path := js.js_get_string (argv 0)
    let type := js.js_get_string (argv 1)
    let rounds := (List.range' 2 (argc - 2)).map (OscSend.step js mem argv type)
    (true, some
      { path := path
        outmsg := rounds.flatMap Prod.snd
        reads := [.argv 0, .argv 1] ++ rounds.flatMap Prod.fst })

end Send

/-! ### What was asked for -/

/-- The types that are recognized. -/
inductive OscType
  | i
  | f
  | s
  deriving DecidableEq

/-- `'i'`, `'f'` and `'s'` -/
def OscType.letter : OscType → CHAR
  | .i => 0x69
  | .f => 0x66
  | .s => 0x73

/-- A string of types stands in memory. -/
def HoldsTypes (mem : ℕ → CHAR) (types : List OscType) : Prop :=
  (∀ k, (h : k < types.length) → mem k = (types.get ⟨k, h⟩).letter) ∧ mem types.length = EOL

/-- What is read is a character of the string of `n` types or the one that ends it, or one of
the `argc` values. -/
def OscRead.Within (n argc : ℕ) : OscRead → Prop
  | .type i => i ≤ n
  | .argv i => i < argc

variable {V S D F : Type*} (js : JsGet V S D F)

/-- A value of a script as an argument of the given type. -/
def OscType.convert (v : V) : OscType → LoArg S F
  | .i => .int32 (js.js_get_int v)
  | .f => .float (js.float (js.js_get_double v))
  | .s => .string (js.js_get_string v)

/-- The message that was asked for: an argument for each type, in order. -/
def OscType.message (argv : ℕ → V) (types : List OscType) : List (LoArg S F) :=
  types.zipIdx.map fun (t, k) => t.convert js (argv (k + 2))

/-! ### What is sent -/

section Rounds

variable {js} {mem : S → ℕ → CHAR} {argv : ℕ → V} {type : S} {types : List OscType}

/-- Every round reads the type at its own index. -/
theorem OscSend.type_mem_step (c : ℕ) : .type c ∈ (OscSend.step js mem argv type c).1 := by
  unfold OscSend.step
  split_ifs <;> simp

/-- A round inside the string takes the type at its own index, two behind the one of its
argument, and a string from the argument after. -/
theorem OscSend.step_of_lt (htypes : HoldsTypes (mem type) types) {k : ℕ}
    (hk : k + 2 < types.length) :
    (OscSend.step js mem argv type (k + 2)).2 =
      match types.get ⟨k + 2, hk⟩ with
      | .s => [OscType.convert js (argv (k + 3)) .s]
      | t => [t.convert js (argv (k + 2))] := by
  have hletter := htypes.1 (k + 2) hk
  unfold OscSend.step
  rw [hletter]
  cases types.get ⟨k + 2, hk⟩ <;> rfl

/-- The round at the end of the string adds nothing. -/
theorem OscSend.step_length (htypes : HoldsTypes (mem type) types) :
    OscSend.step js mem argv type types.length = ([.type types.length], []) := by
  unfold OscSend.step
  rw [htypes.2]
  rfl

end Rounds

/-- **What is sent.** Whatever the types that are recognized and the values: the message that
was asked for is sent, and nothing is read beyond the types and the values, if and only if
there are no types. -/
theorem osc_send_iff (mem : S → ℕ → CHAR) (argv : ℕ → V) (types : List OscType)
    (htypes : HoldsTypes (mem (js.js_get_string (argv 1))) types) :
    (∃ sent, js_osc_ctrl_send js mem argv true (types.length + 2) = (true, some sent) ∧
      sent.path = js.js_get_string (argv 0) ∧
      sent.outmsg = OscType.message js argv types ∧
      ∀ r ∈ sent.reads, r.Within types.length (types.length + 2)) ↔ types = [] := by
  have hargc : ¬ types.length + 2 < 2 := by omega
  constructor
  · rintro ⟨sent, hsent, -, -, hreads⟩
    by_contra hne
    have hpos : 0 < types.length := List.length_pos_iff.2 hne
    simp only [js_osc_ctrl_send, if_neg hargc, Nat.add_sub_cancel, reduceCtorEq, if_false,
      Prod.mk.injEq, Option.some.injEq, true_and] at hsent
    subst hsent
    -- the last round is one behind the character that ends the string
    have hlast : types.length + 1 ∈ List.range' 2 types.length := by
      rw [List.mem_range'_1]
      omega
    have hread : types.length + 1 ≤ types.length :=
      hreads (.type (types.length + 1)) (List.mem_append_right _
        (List.mem_flatMap.2 ⟨_, List.mem_map_of_mem hlast, OscSend.type_mem_step _⟩))
    omega
  · rintro rfl
    refine ⟨_, rfl, rfl, rfl, ?_⟩
    intro r hr
    change r ∈ [OscRead.argv 0, .argv 1] at hr
    rw [List.mem_pair] at hr
    rcases hr with rfl | rfl
    · exact Nat.zero_lt_two
    · exact Nat.one_lt_two

/-! ### The message of the test script -/

/-- A value of a script: a number that is an integer or not, or a string at an address. -/
inductive ScriptValue
  | int (i : ℤ)
  | double (d : ℚ)
  | string (p : ℕ)

/-- What the values of a script are converted to, where a string is no number and a number is
not a string, which is `NULL`. -/
def JsGet.script : JsGet ScriptValue (Option ℕ) ℚ ℚ where
  js_get_int
    | .int i => i
    | .double d => d.num.tdiv d.den
    | .string _ => 0
  js_get_double
    | .int i => i
    | .double d => d
    | .string _ => 0
  js_get_string
    | .string p => some p
    | _ => none
  float d := d

/-- A path at address 1, types at address 2, and the values in `args`. -/
def ScriptValue.argv (args : List ScriptValue) (i : ℕ) : ScriptValue :=
  (ScriptValue.string 1 :: ScriptValue.string 2 :: args).getD i (.int 0)

/-- A string of types at address 2, with null characters behind it. -/
def OscType.memory (types : List OscType) (p : Option ℕ) (i : ℕ) : CHAR :=
  if p = some 2 then (types.map OscType.letter).getD i EOL else EOL

/-- `send("/test", "")` sends a message without arguments. -/
theorem osc_send_no_types :
    ∃ sent, js_osc_ctrl_send JsGet.script (OscType.memory []) (ScriptValue.argv []) true 2 =
        (true, some sent) ∧ sent.path = some 1 ∧ sent.outmsg = [] := by
  obtain ⟨sent, hsent, hpath, hmsg, -⟩ :=
    (osc_send_iff JsGet.script (OscType.memory []) (ScriptValue.argv []) [] ⟨by simp, rfl⟩).2 rfl
  exact ⟨sent, hsent, hpath, hmsg⟩

/-- `send("/test", "ifs", 123, 4.5, "hello")`: neither the integer nor the float is sent, the
only argument is the float as a string, which it is not, and a character is read behind the
end of the types. -/
theorem osc_send_ifs :
    let argv := ScriptValue.argv [.int 123, .double (9 / 2), .string 3]
    let mem := OscType.memory [.i, .f, .s]
    ∃ sent, js_osc_ctrl_send JsGet.script mem argv true 5 = (true, some sent) ∧
      HoldsTypes (mem (JsGet.script.js_get_string (argv 1))) [.i, .f, .s] ∧
      OscType.message JsGet.script argv [.i, .f, .s] =
        [.int32 123, .float (9 / 2), .string (some 3)] ∧
      sent.outmsg = [.string none] ∧
      .type 4 ∈ sent.reads ∧ ¬ OscRead.Within 3 5 (.type 4) := by
  intro argv mem
  refine ⟨_, rfl, ⟨?_, rfl⟩, rfl, rfl, ?_, by simp [OscRead.Within]⟩
  · intro k hk
    match k, hk with
    | 0, _ => rfl
    | 1, _ => rfl
    | 2, _ => rfl
  · exact List.mem_append_right _ (List.mem_flatMap.2
      ⟨_, List.mem_map_of_mem (List.mem_range'_1.2 ⟨by decide, by decide⟩),
        OscSend.type_mem_step 4⟩)

end FreeJ
