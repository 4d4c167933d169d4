import Mathlib.Data.Option.Basic
import Mathlib.Logic.Function.Basic
import FreeJ.CString
import FreeJ.Transition

/-!
# The Factory and Its Defaults

`factory.h`. A factory makes objects of type `T` by instantiators of type `F`, which are
registered under a tag made of a category and an id. An id can be made the default of its
category. The maps are created on first use; following the pointer to one that was not
created yet is `none`.

`register_instantiator` sets the default of its category when there is one already, so a
registration replaces the default that was configured. This module says what the default of
a category is after any sequence of calls, and when it is the one that was configured.

## Main results

* `Factory.default_step`: what a call does to the default of a category.
* `default_stable_iff`: the configured defaults last through a sequence of calls if and only
  if no registration of another id for a configured category succeeds in it.
-/

namespace FreeJ

open Function (update)

/-- `FACTORY_ID_MAXLEN` -/
def FACTORY_ID_MAXLEN : ℕ := 64

/-- What `error` is called for. -/
inductive FactoryError
  /-- Factory::new_instance : requested ID (category::id) exceedes maximum size -/
  | exceeds_maximum_size (category id : CString)
  /-- Can't register new class. Tag already exists! -/
  | already_exists (tag : CString)
  deriving DecidableEq

/-- A map from strings. -/
abbrev StringMap (V : Type*) := CString → Option V

/-- `Factory<T>`, whose maps are null pointers before their first use. -/
structure Factory (F T : Type*) where
  /-- A registered instantiator may be a null pointer. -/
  instantiators_map : Option (StringMap (Option F))
  defaults_map : Option (StringMap CString)
  instances_map : Option (StringMap (Option T))

namespace Factory

variable {F T W : Type*}

/-- The factory before any call. -/
def init : Factory F T where
  instantiators_map := none
  defaults_map := none
  instances_map := none

/-- `make_tag` -/
def make_tag (category id : CString) : Except FactoryError CString :=
  if category.strlen + id.strlen + 3 > FACTORY_ID_MAXLEN then
    .error (.exceeds_maximum_size category id)
  else .ok (category ++ .literal [':', ':'] ++ id)

/-- `set_default_classtype` -/
def set_default_classtype (s : Factory F T) (category id : CString) : Factory F T :=
  let defaults := s.defaults_map.getD fun _ => none -- create on first use
  { s with defaults_map := some (update defaults category (some id)) }

/-- `register_instantiator`, after a tag that is new was inserted. -/
def default_on_register (s : Factory F T) (category id : CString) : Factory F T :=
  let defaults := s.defaults_map.getD fun _ => none
  let s := { s with defaults_map := some defaults }
  if (defaults category).isSome then s.set_default_classtype category id else s

/-- `register_instantiator`; a call that fails changes nothing. -/
def register_instantiator (s : Factory F T) (category id : CString) (func : Option F) :
    Except FactoryError (Factory F T) :=
  match make_tag category id with
  | .error e => .error e
  | .ok tag =>
    let instantiators := s.instantiators_map.getD fun _ => none -- create on first use
    if (instantiators tag).isSome then .error (.already_exists tag)
    else .ok (default_on_register
      { s with instantiators_map := some (update instantiators tag (some func)) } category id)

/-- `new_instance(category, id)`. Calling an instantiator may change the world outside the
factory, as `create` says. -/
def new_instance (s : Factory F T) (category id : Option CString)
    (create : F → W → Option T × W) (w : W) : Option (Option T × W) :=
  match category, id with
  | some category, some id =>
    match make_tag category id with
    | .error _ => some (none, w)
    | .ok tag => s.instantiators_map.map fun instantiators =>
        match instantiators tag with
        | some (some create_instance) => create create_instance w
        | _ => (none, w)
  | _, _ => some (none, w) -- safety belts

/-- `get_instance(category, id)` -/
def get_instance (s : Factory F T) (category id : Option CString)
    (create : F → W → Option T × W) (w : W) : Option (Option T × W × Factory F T) :=
  match category, id with
  | some category, some id =>
    match make_tag category id with
    | .error _ => some (none, w, s)
    | .ok tag =>
      let instances := s.instances_map.getD fun _ => none
      match instances tag with
      | some inst => some (inst, w, s)
      | none => -- create on first use
        (s.new_instance category id create w).map fun (inst, w) =>
          (inst, w, { s with instances_map := some (update instances tag (some inst)) })
  | _, _ => some (none, w, s) -- safety belts

/-- `new_instance(category)` and `get_instance(category)`, the id that they look for. -/
def default_id (s : Factory F T) (category : CString) : Option (Option CString) :=
  s.defaults_map.map fun defaults => defaults category

/-- `new_instance(category)` -/
def new_instance_of (s : Factory F T) (category : CString) (create : F → W → Option T × W)
    (w : W) : Option (Option T × W) :=
  (s.default_id category).bind fun
    | some id => s.new_instance category id create w
    | none => some (none, w)

/-- `get_instance(category)` -/
def get_instance_of (s : Factory F T) (category : CString) (create : F → W → Option T × W)
    (w : W) : Option (Option T × W × Factory F T) :=
  (s.default_id category).bind fun
    | some id => s.get_instance category id create w
    | none => some (none, w, s)

end Factory

/-! ### Runs of the calls that configure -/

/-- The calls made by static initializers and by the configuration. -/
inductive ConfigCall (F : Type*)
  | register (category id : CString) (func : Option F)
  | set_default (category id : CString)

namespace Factory

variable {F T : Type*}

/-- The factory after a call, whatever it returned. -/
def configure (s : Factory F T) : ConfigCall F → Factory F T
  | .register category id func =>
      match s.register_instantiator category id func with
      | .ok s' => s'
      | .error _ => s
  | .set_default category id => s.set_default_classtype category id

/-- The factory after a sequence of calls. -/
def configured (calls : List (ConfigCall F)) : Factory F T :=
  calls.foldl configure init

end Factory

/-- The defaults asked for by a call: registrations are no part of this. -/
def ConfigCall.sets {F : Type*} (d : StringMap CString) : ConfigCall F → StringMap CString
  | .register _ _ _ => d
  | .set_default category id => update d category (some id)

namespace Factory

variable {F T W : Type*} {s : Factory F T} {calls : List (ConfigCall F)} {call : ConfigCall F}
  {category id tag : CString}

/-- The id of the last `set_default_classtype` for each category. -/
def lastDefault (calls : List (ConfigCall F)) : StringMap CString :=
  calls.foldl ConfigCall.sets fun _ => none

/-- One of the calls was a registration under the tag. -/
def Registered (calls : List (ConfigCall F)) (tag : CString) : Prop :=
  ∃ category id func, .register category id func ∈ calls ∧ make_tag category id = .ok tag

/-- A call that leaves the configured defaults alone: a registration whose tag is too long
or was registered before, or whose category has no configured default, or this one. -/
def KeepsDefaults (calls : List (ConfigCall F)) : ConfigCall F → Prop
  | .register category id _ =>
      ∀ tag, make_tag category id = .ok tag → Registered calls tag ∨
        lastDefault calls category = none ∨ lastDefault calls category = some id
  | .set_default _ _ => True

/-- The id that a lookup by category resolves to is the one configured last. -/
def Stable (T W : Type*) (calls : List (ConfigCall F)) : Prop :=
  ∀ category id, lastDefault calls category = some id →
    let s : Factory F T := configured calls
    s.default_id category = some (some id) ∧
      ∀ (create : F → W → Option T × W) w,
        s.new_instance_of category create w = s.new_instance category id create w ∧
        s.get_instance_of category create w = s.get_instance category id create w

/-- The default of a category. -/
def default (s : Factory F T) (category : CString) : Option CString :=
  (s.default_id category).join

/-- The tag has been registered. -/
def taken (s : Factory F T) (tag : CString) : Bool :=
  ((s.instantiators_map.getD fun _ => none) tag).isSome

/-- The tag of a category and an id fits and has not been registered. -/
def free (s : Factory F T) (category id : CString) : Bool :=
  match make_tag category id with
  | .ok tag => !s.taken tag
  | .error _ => false

theorem free_eq_true :
    s.free category id = true ↔ ∃ tag, make_tag category id = .ok tag ∧ s.taken tag = false := by
  simp only [free]
  cases make_tag category id <;> simp

theorem default_eq_getD (s : Factory F T) (category : CString) :
    s.default category = (s.defaults_map.getD fun _ => none) category := by
  simp only [default, default_id]
  cases s.defaults_map <;> rfl

theorem default_eq_some :
    s.default category = some id ↔ s.default_id category = some (some id) := by
  simp only [default]
  exact Option.join_eq_some_iff

theorem default_set (s : Factory F T) (category id c : CString) :
    (s.set_default_classtype category id).default c =
      if c = category then some id else s.default c := by
  simp only [default_eq_getD, set_default_classtype, Option.getD_some, Function.update_apply]

/-- **What a registration does to the defaults**: where there is one, it becomes the default. -/
theorem default_on_register_eq (s : Factory F T) (category id c : CString) :
    (s.default_on_register category id).default c =
      if c = category ∧ (s.default category).isSome then some id else s.default c := by
  simp only [default_on_register]
  have hd : ∀ c, default { s with defaults_map := some (s.defaults_map.getD fun _ => none) } c =
      s.default c := fun c => by simp [default_eq_getD]
  rw [← default_eq_getD]
  by_cases hs : (s.default category).isSome
  · rw [if_pos hs, default_set, hd]
    simp [hs]
  · rw [if_neg hs, hd]
    simp [hs]

@[simp] theorem instantiators_on_register (s : Factory F T) (category id : CString) :
    (s.default_on_register category id).instantiators_map = s.instantiators_map := by
  simp only [default_on_register]
  split <;> rfl

@[simp] theorem instances_on_register (s : Factory F T) (category id : CString) :
    (s.default_on_register category id).instances_map = s.instances_map := by
  simp only [default_on_register]
  split <;> rfl

/-- **What a registration does.** It succeeds when its tag fits and is not taken. -/
theorem register_cases (s : Factory F T) (category id : CString) (func : Option F) :
    (∃ tag s', make_tag category id = .ok tag ∧ s.taken tag = false ∧
      s.register_instantiator category id func = .ok s' ∧
      (∀ c, s'.default c =
        if c = category ∧ (s.default category).isSome then some id else s.default c) ∧
      s'.instantiators_map =
        some (update (s.instantiators_map.getD fun _ => none) tag (some func)) ∧
      s'.instances_map = s.instances_map) ∨
    (∃ e, s.register_instantiator category id func = .error e ∧
      ∀ tag, make_tag category id = .ok tag → s.taken tag = true) := by
  simp only [register_instantiator]
  cases ht : make_tag category id with
  | error e => exact .inr ⟨e, rfl, by simp⟩
  | ok tag =>
      by_cases hk : s.taken tag = true
      · refine .inr ⟨.already_exists tag, if_pos hk, ?_⟩
        rintro _ ⟨⟩
        exact hk
      · refine .inl ⟨tag, _, rfl, by simpa using hk, if_neg hk, fun c => ?_, by simp, by simp⟩
        rw [default_on_register_eq]
        rfl

theorem configured_append (calls : List (ConfigCall F)) (call : ConfigCall F) :
    (configured (calls ++ [call]) : Factory F T) = (configured calls).configure call := by
  simp [configured]

theorem registered_append_register {func : Option F} :
    Registered (calls ++ [.register category id func]) tag ↔
      Registered calls tag ∨ make_tag category id = .ok tag := by
  simp only [Registered, List.mem_append, List.mem_singleton]
  constructor
  · rintro ⟨c, i, f, hm | hm, ht⟩
    · exact .inl ⟨c, i, f, hm, ht⟩
    · cases hm
      exact .inr ht
  · rintro (⟨c, i, f, hm, ht⟩ | ht)
    · exact ⟨c, i, f, .inl hm, ht⟩
    · exact ⟨category, id, func, .inr rfl, ht⟩

theorem registered_append_set :
    Registered (calls ++ [.set_default category id]) tag ↔ Registered calls tag := by
  simp [Registered]

/-- A registration takes its tag. -/
theorem taken_register (s : Factory F T) (category id tag : CString) (func : Option F) :
    (s.configure (.register category id func)).taken tag = true ↔
      s.taken tag = true ∨ make_tag category id = .ok tag := by
  simp only [configure]
  obtain ⟨t, s', ht, -, hs', -, hmap, -⟩ | ⟨e, he, htk⟩ := register_cases s category id func
  · rw [hs', ht]
    simp only [taken, hmap, Option.getD_some, Function.update_apply, Except.ok.injEq]
    by_cases heq : tag = t
    · simp [heq]
    · simp [heq, Ne.symm heq]
  · rw [he]
    exact (or_iff_left_of_imp (htk tag)).symm

/-- The tags that are taken are those that were registered. -/
theorem taken_configured (calls : List (ConfigCall F)) (tag : CString) :
    (configured calls : Factory F T).taken tag = true ↔ Registered calls tag := by
  induction calls using List.reverseRecOn with
  | nil => simp [configured, init, taken, Registered]
  | append_singleton calls call ih =>
      rw [configured_append]
      cases call with
      | set_default category id => exact ih.trans registered_append_set.symm
      | register category id func => rw [taken_register, registered_append_register, ih]

theorem lastDefault_append (calls : List (ConfigCall F)) (call : ConfigCall F) :
    lastDefault (calls ++ [call]) = call.sets (lastDefault calls) := by
  simp [lastDefault]

/-- **What a call does to the default of a category**: a registration that succeeds replaces
it where there is one. -/
theorem default_step (s : Factory F T) (call : ConfigCall F) (c : CString) :
    (s.configure call).default c =
      match call with
      | .set_default category id => if c = category then some id else s.default c
      | .register category id _ =>
          if c = category ∧ (s.default category).isSome ∧ s.free category id
          then some id else s.default c := by
  cases call with
  | set_default category id => exact default_set s category id c
  | register category id func =>
      simp only [configure]
      obtain ⟨t, s', ht, hfree, hs', hd, -, -⟩ | ⟨e, he, htk⟩ := register_cases s category id func
      · have hf : s.free category id = true := free_eq_true.mpr ⟨t, ht, hfree⟩
        rw [hs']
        simp [hd, hf]
      · rw [he, if_neg]
        rintro ⟨-, -, hf⟩
        obtain ⟨tag, ht, hfree⟩ := free_eq_true.mp hf
        simp [htk tag ht] at hfree

/-- Only a category with a configured default has a default. -/
theorem default_isSome (calls : List (ConfigCall F)) (c : CString) :
    ((configured calls : Factory F T).default c).isSome = (lastDefault calls c).isSome := by
  induction calls using List.reverseRecOn with
  | nil => rfl
  | append_singleton calls call ih =>
      rw [configured_append, lastDefault_append, default_step]
      cases call with
      | set_default category id =>
          simp only [ConfigCall.sets, Function.update_apply]
          split
          · rfl
          · exact ih
      | register category id func =>
          simp only [ConfigCall.sets]
          split
          · rename_i h
            rw [← ih, h.1, h.2.1]
            rfl
          · exact ih

/-- The defaults are the configured ones. -/
theorem stable_iff : Stable T W calls ↔ ∀ c,
    (configured calls : Factory F T).default c = lastDefault calls c := by
  constructor
  · intro h c
    cases hl : lastDefault calls c with
    | some id => exact default_eq_some.mpr (h c id hl).1
    | none =>
        have hs := default_isSome (T := T) calls c
        rw [hl] at hs
        simpa using hs
  · intro h category id hl
    have hd := default_eq_some.mp ((h category).trans hl)
    refine ⟨hd, fun create w => ?_⟩
    simp only [new_instance_of, get_instance_of, hd, Option.bind_some, true_and]

/-- While the defaults are stable, the calls that leave them so are those that keep them. -/
theorem Stable.append_iff (h : Stable T W calls) :
    Stable T W (calls ++ [call]) ↔ KeepsDefaults calls call := by
  rw [stable_iff] at h ⊢
  rw [configured_append, lastDefault_append]
  simp only [default_step]
  cases call with
  | set_default category id =>
      simp only [KeepsDefaults, ConfigCall.sets, Function.update_apply, iff_true]
      intro c
      rw [h c]
  | register category id func =>
      simp only [KeepsDefaults, ConfigCall.sets]
      rw [h category]
      constructor
      · intro hall tag ht
        by_contra hno
        push Not at hno
        obtain ⟨hreg, hsome, hne⟩ := hno
        have hfree : (configured calls : Factory F T).taken tag = false := by
          rw [← Bool.not_eq_true, taken_configured]
          exact hreg
        have := hall category
        rw [if_pos ⟨rfl, Option.isSome_iff_ne_none.mpr hsome, free_eq_true.mpr ⟨tag, ht, hfree⟩⟩]
          at this
        exact hne this.symm
      · intro hk c
        split
        · rename_i hc
          obtain ⟨rfl, hsome, hf⟩ := hc
          obtain ⟨tag, ht, hfree⟩ := free_eq_true.mp hf
          obtain hreg | hnone | hid := hk tag ht
          · rw [(taken_configured calls tag).mpr hreg] at hfree
            cases hfree
          · rw [hnone] at hsome
            cases hsome
          · exact hid.symm
        · exact h c

/-- **When configured defaults are stable.** Throughout a sequence of registrations and
configurations every configured category resolves to the id configured last, if and only if
no registration in the sequence succeeds for a category whose configured default is another
id. -/
theorem default_stable_iff (calls : List (ConfigCall F)) :
    (∀ done, done <+: calls → Stable T W done) ↔
      ∀ done call, done ++ [call] <+: calls → KeepsDefaults done call := by
  refine Transition.prefixes_iff ?_ (fun _ _ h => h.append_iff) calls
  intro category id h
  simp [lastDefault] at h

/-- The default screen is configured before another implementation registers itself. -/
theorem default_overridden :
    ¬ Stable Unit Unit
      [(.set_default (.literal ['S', 'c', 'r', 'e', 'e', 'n']) (.literal ['s', 'd', 'l']) :
          ConfigCall Unit),
        .register (.literal ['S', 'c', 'r', 'e', 'e', 'n']) (.literal ['s', 'o', 'f', 't'])
          (some ())] := by
  intro h
  have h1 := (h (.literal ['S', 'c', 'r', 'e', 'e', 'n']) (.literal ['s', 'd', 'l'])
    (by decide)).1
  revert h1
  decide

end Factory

end FreeJ
