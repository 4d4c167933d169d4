import FreeJ.Factory

/-!
# The Instances of a Factory

`Factory::get_instance` is meant to be a lazy singleton: the instance of a pair of category
and id is created by the first call and returned by all later ones. It keeps whatever
`new_instance` returned, a null pointer for a pair that is not registered included, and that
null pointer is returned for good. Before any registration the map of the instantiators does
not exist yet and a lookup follows a null pointer.

## Main results

* `Factory.get_instance_eq`: a call of `get_instance` in terms of what is registered and what
  is kept for its tag.
* `get_instance_singleton`: in every run in which nothing is looked up before a registration
  and no tag is registered after it was looked up, `get_instance` is a lazy singleton, and a
  further call keeps it one exactly when it is in time as well.
-/

namespace FreeJ

open Function (update)
open Transition

namespace Factory

variable {F T W : Type*} {s : Factory F T}

/-- The tag of two arguments that are strings and fit. -/
def tagOf (category id : Option CString) : Option CString :=
  category.bind fun category => id.bind fun id => (make_tag category id).toOption

/-- The instantiator registered under a tag. -/
def instantiator (s : Factory F T) (tag : CString) : Option F :=
  ((s.instantiators_map.getD fun _ => none) tag).join

/-- What is kept for a tag: an instance or a null pointer. -/
def kept (s : Factory F T) (tag : CString) : Option (Option T) :=
  (s.instances_map.getD fun _ => none) tag

/-- `get_instance`, keep an instance. -/
def keep (s : Factory F T) (tag : CString) (inst : Option T) : Factory F T :=
  { s with instances_map := some (update (s.instances_map.getD fun _ => none) tag (some inst)) }

theorem kept_keep (s : Factory F T) (tag t : CString) (inst : Option T) :
    (s.keep tag inst).kept t = if t = tag then some inst else s.kept t := by
  simp [kept, keep, Function.update_apply]

@[simp] theorem instantiators_map_keep (s : Factory F T) (tag : CString) (inst : Option T) :
    (s.keep tag inst).instantiators_map = s.instantiators_map := rfl

/-- An instantiator is called when one is registered. -/
def createBy (f : Option F) (create : F → W → Option T × W) (w : W) : Option T × W :=
  f.elim (none, w) fun f => create f w

@[simp] theorem createBy_none (create : F → W → Option T × W) (w : W) :
    createBy none create w = (none, w) := rfl

@[simp] theorem createBy_some (f : F) (create : F → W → Option T × W) (w : W) :
    createBy (some f) create w = create f w := rfl

theorem new_instance_eq (s : Factory F T) (category id : Option CString)
    (create : F → W → Option T × W) (w : W) :
    s.new_instance category id create w =
      match tagOf category id with
      | none => some (none, w)
      | some tag => s.instantiators_map.map fun _ => createBy (s.instantiator tag) create w := by
  cases category with
  | none => rfl
  | some category =>
      cases id with
      | none => rfl
      | some id =>
          simp only [new_instance, tagOf, Option.bind_some]
          cases make_tag category id with
          | error e => rfl
          | ok tag =>
              simp only [Except.toOption, instantiator]
              cases s.instantiators_map with
              | none => rfl
              | some m =>
                  simp only [Option.map_some, Option.getD_some]
                  cases m tag with
                  | none => rfl
                  | some f => cases f <;> rfl

/-- **What a lookup does.** What is kept is returned; else an instantiator is called if there
is one, and the result is kept. -/
theorem get_instance_eq (s : Factory F T) (category id : Option CString)
    (create : F → W → Option T × W) (w : W) :
    s.get_instance category id create w =
      match tagOf category id with
      | none => some (none, w, s)
      | some tag =>
        match s.kept tag with
        | some inst => some (inst, w, s)
        | none => s.instantiators_map.map fun _ =>
            let (inst, w) := createBy (s.instantiator tag) create w
            (inst, w, s.keep tag inst) := by
  cases category with
  | none => rfl
  | some category =>
      cases id with
      | none => rfl
      | some id =>
          simp only [get_instance, new_instance_eq]
          simp only [tagOf, Option.bind_some]
          cases make_tag category id with
          | error e => rfl
          | ok tag =>
              simp only [Except.toOption, kept]
              cases (s.instances_map.getD fun _ => none) tag with
              | some inst => rfl
              | none => simp [keep, Option.map_map, Function.comp_def]

end Factory

/-- What is recorded of a run: an instantiator called by `get_instance` returned,
`get_instance` returned while an instantiator was registered or not, `new_instance`
returned. -/
inductive FactoryEvent (T : Type*)
  | created (category id : Option CString) (inst : Option T)
  | got (category id : Option CString) (inst : Option T) (registered : Bool)
  | made (category id : Option CString) (inst : Option T)

/-- The event is a call of an instantiator by `get_instance` for the tag. -/
def FactoryEvent.creates {T : Type*} (tag : CString) : FactoryEvent T → Bool
  | .created category id _ => decide (Factory.tagOf category id = some tag)
  | _ => false

/-- The calls of a run, with what an instantiator returns if the call calls one. -/
inductive FactoryCall (F T : Type*)
  | register (category id : CString) (func : Option F)
  | new_instance (category id : Option CString) (create : F → Option T)
  | get_instance (category id : Option CString) (create : F → Option T)

/-- What surrounds a factory: the objects made so far and the record of the run. -/
structure FactoryWorld (T : Type*) where
  objects : List T
  trace : List (FactoryEvent T)

/-- A factory in its surroundings. -/
structure FactoryRun (F T : Type*) where
  factory : Factory F T
  world : FactoryWorld T

namespace FactoryWorld

variable {T : Type*}

/-- Something happened. -/
def log (w : FactoryWorld T) (e : FactoryEvent T) : FactoryWorld T :=
  { w with trace := w.trace ++ [e] }

/-- An instantiator returned. -/
def made (w : FactoryWorld T) (inst : Option T) : FactoryWorld T :=
  { w with objects := w.objects ++ inst.toList }

@[simp] theorem log_objects (w : FactoryWorld T) (e : FactoryEvent T) :
    (w.log e).objects = w.objects := rfl

@[simp] theorem log_trace (w : FactoryWorld T) (e : FactoryEvent T) :
    (w.log e).trace = w.trace ++ [e] := rfl

@[simp] theorem made_objects (w : FactoryWorld T) (inst : Option T) :
    (w.made inst).objects = w.objects ++ inst.toList := rfl

@[simp] theorem made_trace (w : FactoryWorld T) (inst : Option T) :
    (w.made inst).trace = w.trace := rfl

end FactoryWorld

namespace FactoryRun

variable {F T : Type*}

/-- An instantiator is registered for the pair. -/
def registered (s : FactoryRun F T) (category id : Option CString) : Bool :=
  ((Factory.tagOf category id).bind s.factory.instantiator).isSome

/-- The run after a call. -/
def call (s : FactoryRun F T) : FactoryCall F T → Option (FactoryRun F T)
  | .register category id func => some
      { s with
        factory := (s.factory.register_instantiator category id func).toOption.getD s.factory }
  | .new_instance category id create =>
      (s.factory.new_instance category id (fun f w => (create f, w.made (create f))) s.world).map
        fun (inst, w) => { s with world := w.log (.made category id inst) }
  | .get_instance category id create =>
      (s.factory.get_instance category id
        (fun f w => (create f, (w.made (create f)).log (.created category id (create f))))
        s.world).map
        fun (inst, w, factory) =>
          { factory := factory
            world := w.log (.got category id inst (s.registered category id)) }

/-- Before any call. -/
def init : FactoryRun F T where
  factory := Factory.init
  world := { objects := [], trace := [] }

end FactoryRun

/-- Instantiators return new objects. -/
def FactoryCall.Fresh {F T : Type*} (objects : List T) : FactoryCall F T → Prop
  | .register _ _ _ => True
  | .new_instance _ _ create | .get_instance _ _ create =>
      ∀ f x, create f = some x → x ∉ objects

namespace FactoryRun

variable {F T : Type*}

/-- The runs of a factory. -/
def system : System (FactoryRun F T) (FactoryCall F T) where
  init s := s = init
  step s call t := call.Fresh s.world.objects ∧ s.call call = some t

/-- An instantiator called by `get_instance` for the tag returned a null pointer. -/
def CameNull (s : FactoryRun F T) (tag : CString) : Prop :=
  ∃ category id, Factory.tagOf category id = some tag ∧
    .created category id none ∈ s.world.trace

/-- `get_instance` is a lazy singleton. -/
structure Proper (s : FactoryRun F T) : Prop where
  /-- What it returned for a pair is the same object each time. -/
  same : ∀ category id x y b b', .got category id (some x) b ∈ s.world.trace →
    .got category id (some y) b' ∈ s.world.trace → x = y
  /-- `new_instance` returned no such object. -/
  apart : ∀ category id x b category' id' y, .got category id (some x) b ∈ s.world.trace →
    .made category' id' (some y) ∈ s.world.trace → x ≠ y
  /-- It called an instantiator at most once for each tag. -/
  once : ∀ tag, s.world.trace.countP (FactoryEvent.creates tag) ≤ 1
  /-- It returned a null pointer while an instantiator was registered only if that had
  returned it. -/
  null : ∀ category id, .got category id none true ∈ s.world.trace →
    ∃ tag, Factory.tagOf category id = some tag ∧ s.CameNull tag
  /-- And it keeps a null pointer for a tag that is registered only if that is so. -/
  late : ∀ tag, s.factory.instantiator tag ≠ none → s.factory.kept tag = some none →
    s.CameNull tag

/-- A call made in time: lookups come after the first registration, and no tag is registered
after it was looked up in vain. -/
def InTime (s : FactoryRun F T) : FactoryCall F T → Prop
  | .register category id func => func ≠ none → ∀ tag, Factory.make_tag category id = .ok tag →
      s.factory.taken tag = false → s.factory.kept tag ≠ some none
  | .new_instance category id _ | .get_instance category id _ =>
      Factory.tagOf category id = none ∨ s.factory.instantiators_map ≠ none

end FactoryRun

/-! ### The invariant -/

namespace Factory

variable {F T : Type*} {s : Factory F T} {category id tag : CString}

/-- A tag that is not taken has no instantiator. -/
theorem instantiator_of_not_taken (h : s.taken tag = false) : s.instantiator tag = none := by
  simp only [taken, Option.isSome_eq_false_iff, Option.isNone_iff_eq_none] at h
  simp [instantiator, h]

/-- What a registration does to the lookups: the tag gets its instantiator if it was free. -/
theorem register_spec (s : Factory F T) (category id : CString) (func : Option F) :
    let s' := (s.register_instantiator category id func).toOption.getD s
    s'.kept = s.kept ∧ (s.instantiators_map ≠ none → s'.instantiators_map ≠ none) ∧
      ∀ tag, s'.instantiator tag =
        if make_tag category id = .ok tag ∧ s.taken tag = false then func
        else s.instantiator tag := by
  obtain ⟨t, s', ht, hfree, hs', -, hmap, hinst⟩ | ⟨e, he, htk⟩ := register_cases s category id func
  · rw [hs', ht]
    refine ⟨funext fun tag => by simp [Except.toOption, kept, hinst],
      fun _ => by simp [Except.toOption, hmap], fun tag => ?_⟩
    simp only [Except.toOption, Option.getD_some, instantiator, hmap, Function.update_apply,
      Except.ok.injEq]
    by_cases heq : tag = t
    · subst heq
      simp [hfree]
    · simp [heq, Ne.symm heq]
  · rw [he]
    refine ⟨rfl, fun h => h, fun tag => ?_⟩
    rw [if_neg]
    · rfl
    · rintro ⟨ht, hfree⟩
      simp [htk tag ht] at hfree

end Factory

namespace FactoryRun

variable {F T : Type*} {s : FactoryRun F T} {category id : Option CString} {tag : CString}
  {inst : Option T}

/-- The states a run goes through when its calls are in time. -/
structure Inv (s : FactoryRun F T) : Prop where
  proper : Proper s
  /-- What an instantiator returned is kept. -/
  created : ∀ category id inst, .created category id inst ∈ s.world.trace →
    ∃ tag, Factory.tagOf category id = some tag ∧ s.factory.instantiator tag ≠ none ∧
      s.factory.kept tag = some inst
  /-- What was returned is kept. -/
  got : ∀ category id x b, .got category id (some x) b ∈ s.world.trace →
    ∃ tag, Factory.tagOf category id = some tag ∧ s.factory.kept tag = some (some x)
  kept : ∀ tag x, s.factory.kept tag = some (some x) →
    x ∈ s.world.objects ∧ ∀ category id, .made category id (some x) ∉ s.world.trace
  made : ∀ category id x, .made category id (some x) ∈ s.world.trace → x ∈ s.world.objects
  map : ∀ tag, s.factory.kept tag ≠ none → s.factory.instantiators_map ≠ none

theorem inv_init : Inv (init : FactoryRun F T) := by
  have hk : ∀ tag, (init : FactoryRun F T).factory.kept tag = none := fun _ => rfl
  constructor
  · constructor <;> simp [init, Factory.init, Factory.kept]
  all_goals simp [init, Factory.init, Factory.kept]

/-- Nothing was created for a tag for which nothing is kept. -/
theorem Inv.creates_eq_zero (h : Inv s) (hk : s.factory.kept tag = none) :
    s.world.trace.countP (FactoryEvent.creates tag) = 0 := by
  rw [List.countP_eq_zero]
  rintro (⟨category, id, inst⟩ | _ | _) he
  · obtain ⟨t, ht, -, hkt⟩ := h.created category id inst he
    simp only [FactoryEvent.creates, ht, Option.some.injEq, decide_eq_true_eq]
    rintro rfl
    simp [hk] at hkt
  · simp [FactoryEvent.creates]
  · simp [FactoryEvent.creates]

/-- A registration in time. -/
theorem Inv.register (h : Inv s) {category id : CString} {func : Option F}
    (hin : InTime s (.register category id func)) :
    Inv { s with factory :=
      (s.factory.register_instantiator category id func).toOption.getD s.factory } := by
  obtain ⟨hkept, hmap, hreg⟩ := s.factory.register_spec category id func
  have hmono : ∀ t, s.factory.instantiator t ≠ none →
      ((s.factory.register_instantiator category id func).toOption.getD
        s.factory).instantiator t ≠ none := by
    intro t ht
    rw [hreg, if_neg]
    · exact ht
    · exact fun hc => ht (Factory.instantiator_of_not_taken hc.2)
  constructor
  · constructor
    · exact h.proper.same
    · exact h.proper.apart
    · exact h.proper.once
    · exact h.proper.null
    · intro t ht hk
      rw [hkept] at hk
      rw [hreg] at ht
      split at ht
      · rename_i hc
        exact absurd hk (hin ht t hc.1 hc.2)
      · exact h.proper.late t ht hk
  · intro c i x hx
    obtain ⟨t, h1, h2, h3⟩ := h.created c i x hx
    exact ⟨t, h1, hmono t h2, by rw [hkept]; exact h3⟩
  · intro c i x b hx
    obtain ⟨t, h1, h2⟩ := h.got c i x b hx
    exact ⟨t, h1, by rw [hkept]; exact h2⟩
  · intro t x hx
    rw [hkept] at hx
    exact h.kept t x hx
  · exact h.made
  · intro t ht
    rw [hkept] at ht
    exact hmap (h.map t ht)

/-- `get_instance` returns what is kept. -/
theorem Inv.log_got (h : Inv s) {b : Bool}
    (hsome : ∀ x, inst = some x →
      ∃ tag, Factory.tagOf category id = some tag ∧ s.factory.kept tag = some (some x))
    (hnone : inst = none → b = true →
      ∃ tag, Factory.tagOf category id = some tag ∧ s.CameNull tag) :
    Inv { s with world := s.world.log (.got category id inst b) } := by
  have hgot : ∀ c i x b', FactoryEvent.got c i (some x) b' ∈
      s.world.trace ++ [.got category id inst b] →
      ∃ tag, Factory.tagOf c i = some tag ∧ s.factory.kept tag = some (some x) := by
    intro c i x b' hx
    obtain hx | hx := List.mem_append.mp hx
    · exact h.got c i x b' hx
    · cases List.mem_singleton.mp hx
      exact hsome x rfl
  have hmade : ∀ c i y, FactoryEvent.made c i y ∈ s.world.trace ++ [.got category id inst b] ↔
      .made c i y ∈ s.world.trace := by simp
  have hcreated : ∀ c i y, FactoryEvent.created c i y ∈
      s.world.trace ++ [.got category id inst b] ↔ .created c i y ∈ s.world.trace := by simp
  have hcame : ∀ t, CameNull { s with world := s.world.log (.got category id inst b) } t ↔
      s.CameNull t := by simp [CameNull]
  constructor
  · constructor
    · intro c i x y b1 b2 hx hy
      obtain ⟨t, ht, hk⟩ := hgot c i x b1 hx
      obtain ⟨t', ht', hk'⟩ := hgot c i y b2 hy
      rw [ht, Option.some.injEq] at ht'
      subst ht'
      simpa [hk] using hk'
    · rintro c i x b1 c' i' y hx hy rfl
      obtain ⟨t, -, hk⟩ := hgot c i x b1 hx
      exact (h.kept t x hk).2 c' i' ((hmade _ _ _).mp hy)
    · intro t
      simpa [List.countP_append, FactoryEvent.creates] using h.proper.once t
    · intro c i hx
      simp only [hcame]
      obtain hx | hx := List.mem_append.mp hx
      · exact h.proper.null c i hx
      · cases List.mem_singleton.mp hx
        exact hnone rfl rfl
    · intro t ht hk
      exact (hcame t).mpr (h.proper.late t ht hk)
  · exact fun c i x hx => h.created c i x ((hcreated c i x).mp hx)
  · exact hgot
  · intro t x hx
    exact ⟨(h.kept t x hx).1, fun c i hm => (h.kept t x hx).2 c i ((hmade _ _ _).mp hm)⟩
  · exact fun c i x hx => h.made c i x ((hmade _ _ _).mp hx)
  · exact h.map

/-- `new_instance` returns a null pointer or a new object. -/
theorem Inv.log_made (h : Inv s) (hnew : ∀ x, inst = some x → x ∉ s.world.objects) :
    Inv { s with world := (s.world.made inst).log (.made category id inst) } := by
  have hgot : ∀ c i x b, FactoryEvent.got c i x b ∈ s.world.trace ++ [.made category id inst] ↔
      .got c i x b ∈ s.world.trace := by simp
  have hcreated : ∀ c i y, FactoryEvent.created c i y ∈
      s.world.trace ++ [.made category id inst] ↔ .created c i y ∈ s.world.trace := by simp
  have hmade : ∀ c i y, FactoryEvent.made c i (some y) ∈
      s.world.trace ++ [.made category id inst] → .made c i (some y) ∈ s.world.trace ∨
        inst = some y := by
    intro c i y hy
    obtain hy | hy := List.mem_append.mp hy
    · exact .inl hy
    · cases List.mem_singleton.mp hy
      exact .inr rfl
  have hcame : ∀ t, CameNull
      { s with world := (s.world.made inst).log (.made category id inst) } t ↔
      s.CameNull t := by simp [CameNull]
  -- what is kept was made earlier
  have hapart : ∀ t x, s.factory.kept t = some (some x) → ∀ c i,
      FactoryEvent.made c i (some x) ∉ s.world.trace ++ [.made category id inst] := by
    intro t x hk c i hm
    obtain ⟨hobj, hnm⟩ := h.kept t x hk
    obtain hm | hm := hmade c i x hm
    · exact hnm c i hm
    · exact hnew x hm hobj
  constructor
  · constructor
    · exact fun c i x y b b' hx hy =>
        h.proper.same c i x y b b' ((hgot _ _ _ _).mp hx) ((hgot _ _ _ _).mp hy)
    · rintro c i x b c' i' y hx hy rfl
      obtain ⟨t, -, hk⟩ := h.got c i x b ((hgot _ _ _ _).mp hx)
      exact hapart t x hk c' i' hy
    · intro t
      simpa [List.countP_append, FactoryEvent.creates] using h.proper.once t
    · intro c i hx
      simp only [hcame]
      exact h.proper.null c i ((hgot _ _ _ _).mp hx)
    · exact fun t ht hk => (hcame t).mpr (h.proper.late t ht hk)
  · exact fun c i x hx => h.created c i x ((hcreated c i x).mp hx)
  · exact fun c i x b hx => h.got c i x b ((hgot _ _ _ _).mp hx)
  · exact fun t x hx => ⟨List.mem_append_left _ (h.kept t x hx).1, hapart t x hx⟩
  · intro c i x hx
    obtain hx | hx := hmade c i x hx
    · exact List.mem_append_left _ (h.made c i x hx)
    · exact List.mem_append_right _ (by simp [hx])
  · exact h.map

/-- `get_instance` keeps a null pointer for a tag that is not registered. -/
theorem Inv.keep_null (h : Inv s) (hk : s.factory.kept tag = none)
    (hf : s.factory.instantiator tag = none) (hmap : s.factory.instantiators_map ≠ none) :
    Inv { s with factory := s.factory.keep tag none } := by
  have hstay : ∀ t x, s.factory.kept t = some x → (s.factory.keep tag none).kept t = some x := by
    intro t x hx
    rw [Factory.kept_keep, if_neg]
    · exact hx
    · rintro rfl
      simp [hk] at hx
  constructor
  · constructor
    · exact h.proper.same
    · exact h.proper.apart
    · exact h.proper.once
    · exact h.proper.null
    · intro t ht hkt
      rw [Factory.kept_keep] at hkt
      split at hkt
      · rename_i heq
        exact absurd (heq ▸ hf) ht
      · exact h.proper.late t ht hkt
  · intro c i x hx
    obtain ⟨t, h1, h2, h3⟩ := h.created c i x hx
    exact ⟨t, h1, h2, hstay t x h3⟩
  · intro c i x b hx
    obtain ⟨t, h1, h2⟩ := h.got c i x b hx
    exact ⟨t, h1, hstay t _ h2⟩
  · intro t x hx
    rw [Factory.kept_keep] at hx
    split at hx
    · simp at hx
    · exact h.kept t x hx
  · exact h.made
  · exact fun _ _ => hmap

/-- `get_instance` keeps what an instantiator returned. -/
theorem Inv.keep_created (h : Inv s) (ht : Factory.tagOf category id = some tag)
    (hk : s.factory.kept tag = none) (hf : s.factory.instantiator tag ≠ none)
    (hmap : s.factory.instantiators_map ≠ none)
    (hnew : ∀ x, inst = some x → x ∉ s.world.objects) :
    Inv { factory := s.factory.keep tag inst
          world := (s.world.made inst).log (.created category id inst) } := by
  have hstay : ∀ t x, s.factory.kept t = some x → (s.factory.keep tag inst).kept t = some x := by
    intro t x hx
    rw [Factory.kept_keep, if_neg]
    · exact hx
    · rintro rfl
      simp [hk] at hx
  have hgot : ∀ c i x b, FactoryEvent.got c i x b ∈
      s.world.trace ++ [.created category id inst] ↔ .got c i x b ∈ s.world.trace := by simp
  have hmade : ∀ c i y, FactoryEvent.made c i y ∈
      s.world.trace ++ [.created category id inst] ↔ .made c i y ∈ s.world.trace := by simp
  have hcame : ∀ t, s.CameNull t → CameNull
      { factory := s.factory.keep tag inst
        world := (s.world.made inst).log (.created category id inst) } t := by
    rintro t ⟨c, i, hci, hx⟩
    exact ⟨c, i, hci, List.mem_append_left _ hx⟩
  constructor
  · constructor
    · exact fun c i x y b b' hx hy =>
        h.proper.same c i x y b b' ((hgot _ _ _ _).mp hx) ((hgot _ _ _ _).mp hy)
    · exact fun c i x b c' i' y hx hy =>
        h.proper.apart c i x b c' i' y ((hgot _ _ _ _).mp hx) ((hmade _ _ _).mp hy)
    · intro t
      simp only [FactoryWorld.log_trace, FactoryWorld.made_trace, List.countP_append,
        List.countP_singleton]
      by_cases heq : t = tag
      · subst heq
        rw [h.creates_eq_zero hk]
        split <;> omega
      · have hne : FactoryEvent.creates t (.created category id inst) = false := by
          simp [FactoryEvent.creates, ht, Ne.symm heq]
        rw [hne]
        exact h.proper.once t
    · intro c i hx
      obtain ⟨t, hci, hn⟩ := h.proper.null c i ((hgot _ _ _ _).mp hx)
      exact ⟨t, hci, hcame t hn⟩
    · intro t hi hkt
      rw [Factory.kept_keep] at hkt
      split at hkt
      · rename_i heq
        subst heq
        cases hkt
        exact ⟨category, id, ht, by simp⟩
      · exact hcame t (h.proper.late t hi hkt)
  · intro c i x hx
    obtain hx | hx := List.mem_append.mp hx
    · obtain ⟨t, h1, h2, h3⟩ := h.created c i x hx
      exact ⟨t, h1, h2, hstay t x h3⟩
    · cases List.mem_singleton.mp hx
      exact ⟨tag, ht, hf, by rw [Factory.kept_keep, if_pos rfl]⟩
  · intro c i x b hx
    obtain ⟨t, h1, h2⟩ := h.got c i x b ((hgot _ _ _ _).mp hx)
    exact ⟨t, h1, hstay t _ h2⟩
  · intro t x hx
    rw [Factory.kept_keep] at hx
    split at hx
    · cases hx
      exact ⟨by simp, fun c i hm => hnew x rfl (h.made c i x ((hmade _ _ _).mp hm))⟩
    · obtain ⟨hobj, hnm⟩ := h.kept t x hx
      exact ⟨List.mem_append_left _ hobj, fun c i hm => hnm c i ((hmade _ _ _).mp hm)⟩
  · exact fun c i x hx => List.mem_append_left _ (h.made c i x ((hmade _ _ _).mp hx))
  · exact fun _ _ => hmap

/-- **A call in time keeps the invariant.** -/
theorem Inv.call (h : Inv s) {call : FactoryCall F T} {t : FactoryRun F T}
    (hin : InTime s call) (hfresh : call.Fresh s.world.objects) (ht : s.call call = some t) :
    Inv t := by
  cases call with
  | register category id func =>
      cases ht
      exact h.register hin
  | new_instance category id create =>
      -- the result is a null pointer or what an instantiator returned
      have hnull : Inv { s with world := s.world.log (.made category id none) } := by
        simpa [FactoryWorld.made] using
          @Inv.log_made F T s category id none h (by simp)
      simp only [FactoryRun.call, Factory.new_instance_eq] at ht
      cases htag : Factory.tagOf category id with
      | none =>
          simp only [htag, Option.map_some, Option.some.injEq] at ht
          exact ht ▸ hnull
      | some tag =>
          simp only [htag, Option.map_map, Option.map_eq_some_iff] at ht
          obtain ⟨m, -, rfl⟩ := ht
          simp only [Function.comp_apply]
          cases hf : s.factory.instantiator tag with
          | none => exact hnull
          | some f => exact h.log_made (hfresh f)
  | get_instance category id create =>
      simp only [FactoryRun.call, Factory.get_instance_eq] at ht
      cases htag : Factory.tagOf category id with
      | none =>
          simp only [htag, Option.map_some, Option.some.injEq] at ht
          subst ht
          exact h.log_got (by simp) (by simp [registered, htag])
      | some tag =>
          simp only [htag] at ht
          cases hk : s.factory.kept tag with
          | some inst =>
              simp only [hk, Option.map_some, Option.some.injEq] at ht
              subst ht
              refine h.log_got ?_ ?_
              · rintro x rfl
                exact ⟨tag, htag, hk⟩
              · rintro rfl hb
                refine ⟨tag, htag, h.proper.late tag ?_ hk⟩
                simpa [registered, htag, Option.isSome_iff_ne_none] using hb
          | none =>
              simp only [hk, Option.map_map, Option.map_eq_some_iff] at ht
              obtain ⟨m, hm, rfl⟩ := ht
              simp only [Function.comp_apply]
              have hmap : s.factory.instantiators_map ≠ none := by simp [hm]
              cases hf : s.factory.instantiator tag with
              | none =>
                  simp only [Factory.createBy_none]
                  have hkeep := h.keep_null hk hf hmap
                  exact hkeep.log_got (by simp) (by simp [registered, htag, hf])
              | some f =>
                  simp only [Factory.createBy_some]
                  have hkeep := h.keep_created htag hk (by simp [hf]) hmap (hfresh f)
                  refine hkeep.log_got (fun x hx => ⟨tag, htag, ?_⟩)
                    fun hx _ => ⟨tag, htag, category, id, htag, ?_⟩
                  · rw [Factory.kept_keep, if_pos rfl, hx]
                  · simp [hx]

theorem inv_reachable {C : FactoryRun F T → FactoryCall F T → Prop}
    (hC : ∀ s call, C s call → InTime s call) (h : Reachable (system.restrict C) s) : Inv s := by
  induction h with
  | init h0 => exact h0 ▸ inv_init
  | step _ hst ih => exact ih.call (hC _ _ hst.1) hst.2.1 hst.2.2

/-- In time or not, a call that is made keeps the singleton proper only if it is in time. -/
theorem Inv.inTime (h : Inv s) {call : FactoryCall F T} {t : FactoryRun F T}
    (ht : s.call call = some t) (hp : Proper t) : InTime s call := by
  cases call with
  | register category id func =>
      cases ht
      intro hfunc tag htag hfree hk
      obtain ⟨hkept, -, hreg⟩ := s.factory.register_spec category id func
      have hinst := hreg tag
      rw [if_pos ⟨htag, hfree⟩] at hinst
      -- the null pointer that is kept did not come from an instantiator
      obtain ⟨c, i, hci, hcr⟩ := hp.late tag (fun hn => hfunc (hinst.symm.trans hn))
        (hkept ▸ hk)
      obtain ⟨t, ht, hne, -⟩ := h.created c i none hcr
      rw [hci, Option.some.injEq] at ht
      exact hne (ht ▸ Factory.instantiator_of_not_taken hfree)
  | new_instance category id create =>
      simp only [FactoryRun.call, Factory.new_instance_eq] at ht
      cases htag : Factory.tagOf category id with
      | none => exact .inl htag
      | some tag =>
          refine .inr fun hmap => ?_
          simp [htag, hmap] at ht
  | get_instance category id create =>
      simp only [FactoryRun.call, Factory.get_instance_eq] at ht
      cases htag : Factory.tagOf category id with
      | none => exact .inl htag
      | some tag =>
          refine .inr fun hmap => ?_
          cases hk : s.factory.kept tag with
          | some inst => exact h.map tag (by simp [hk]) hmap
          | none => simp [htag, hk, hmap] at ht

/-- A call in time returns. -/
theorem InTime.returns {call : FactoryCall F T} (hin : InTime s call) :
    ∃ t, s.call call = some t := by
  cases call with
  | register category id func => exact ⟨_, rfl⟩
  | new_instance category id create =>
      simp only [FactoryRun.call, Factory.new_instance_eq]
      cases htag : Factory.tagOf category id with
      | none => exact ⟨_, rfl⟩
      | some tag =>
          obtain ⟨m, hm⟩ := Option.ne_none_iff_exists'.mp (hin.resolve_left (by simp [htag]))
          exact ⟨_, by rw [hm]; rfl⟩
  | get_instance category id create =>
      simp only [FactoryRun.call, Factory.get_instance_eq]
      cases htag : Factory.tagOf category id with
      | none => exact ⟨_, rfl⟩
      | some tag =>
          obtain ⟨m, hm⟩ := Option.ne_none_iff_exists'.mp (hin.resolve_left (by simp [htag]))
          cases hk : s.factory.kept tag with
          | some inst => exact ⟨_, by simp only [hk]; rfl⟩
          | none => exact ⟨_, by simp only [hk, hm]; rfl⟩

/-- **The lazy singleton.** In every run whose calls are in time `get_instance` is a lazy
singleton, and a further call returns and leaves it one if and only if it is in time too. -/
theorem get_instance_singleton (h : Reachable (system.restrict InTime) s) :
    Proper s ∧ ∀ call : FactoryCall F T, call.Fresh s.world.objects →
      ((∃ t, s.call call = some t ∧ Proper t) ↔ InTime s call) := by
  have hinv := inv_reachable (fun _ _ hc => hc) h
  refine ⟨hinv.proper, fun call hfresh => ⟨?_, fun hin => ?_⟩⟩
  · rintro ⟨t, ht, hp⟩
    exact hinv.inTime ht hp
  · obtain ⟨t, ht⟩ := hin.returns
    exact ⟨t, ht, (hinv.call hin hfresh ht).proper⟩

/-- The category of the screens. -/
def screen : CString := .literal ['S', 'c', 'r', 'e', 'e', 'n']

/-- Two of the screens. -/
def sdl : CString := .literal ['s', 'd', 'l']

/-- Two of the screens. -/
def soft : CString := .literal ['s', 'o', 'f', 't']

/-- A run in which the screen `sdl` was registered. -/
def sdlRun : FactoryRun Unit ℕ :=
  (init.call (.register screen sdl (some ()))).getD init

theorem reachable_sdlRun : Reachable (system.restrict InTime) sdlRun := by
  refine .step (.init rfl) (a := .register screen sdl (some ())) ⟨?_, trivial, rfl⟩
  intro _ _ _ _
  simp [init, Factory.init, Factory.kept]

/-- The screen is looked up after it was registered. -/
theorem get_instance_singleton_screen :
    ∃ t, sdlRun.call (.get_instance screen sdl fun _ => some 1) = some t ∧ Proper t :=
  ((get_instance_singleton reachable_sdlRun).2 (.get_instance screen sdl fun _ => some 1)
    (by intro _ _ _; exact List.not_mem_nil)).mpr (.inr (by decide))

/-- In that run the screen `soft` is looked up, registered and looked up again. -/
def softRun : FactoryRun Unit ℕ :=
  (exec call sdlRun
    [.get_instance screen soft fun _ => some 1,
      .register screen soft (some ()),
      .get_instance screen soft fun _ => some 2]).getD init

theorem softRun_trace :
    softRun.world.trace = [.got screen soft none false, .got screen soft none true] := by
  rfl

/-- An early lookup prevents later success. -/
theorem early_lookup : Reachable system softRun ∧ ¬ Proper softRun := by
  constructor
  · refine .step (.step (.step reachable_sdlRun.of_restrict
      (a := .get_instance screen soft fun _ => some 1) ⟨?_, rfl⟩)
      (a := .register screen soft (some ())) ⟨trivial, rfl⟩)
      (a := .get_instance screen soft fun _ => some 2) ⟨?_, rfl⟩
    · exact fun _ _ _ => List.not_mem_nil
    · exact fun _ _ _ => List.not_mem_nil
  · intro h
    obtain ⟨tag, -, c, i, -, hc⟩ := h.null screen soft (by rw [softRun_trace]; simp)
    rw [softRun_trace] at hc
    simp at hc

end FactoryRun

end FreeJ
