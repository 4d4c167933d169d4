import Mathlib.Logic.Function.Basic
import FreeJ.CString
import FreeJ.Transition

/-!
# Generator Layers

`generator_layer.cpp` and the destructor of `Layer`. A generator layer owns an instance of a
generator. `Layer::parameters` points at the list of parameters inside of that instance, and
`Layer::~Layer` frees the parameters through it.

`close` deletes the instance and leaves the pointer, the destructor of the derived class
calls `close` before that of the base class runs, and `open` closes the old generator before
it knows whether there will be a new one. Following a pointer into an instance that was
deleted is `none`. The addresses of the instances that exist are recorded.

## Main results

* `GeneratorLayer.destroy_eq_none`: a layer that has opened a generator cannot be destroyed.
* `generator_layer_iff`: a layer is as it should be from its construction to its destruction
  if and only if it never opens a generator.
-/

namespace FreeJ

open Function (update)
open Transition

/-- A `Filter` that is a generator, of frei0r or FreeFrame. -/
structure Generator where
  name : CString
  deriving DecidableEq

/-- `GeneratorLayer`, with the instances of generators that exist, by their addresses. -/
structure GeneratorLayer (A : Type*) where
  generators : Option (List Generator)
  generator : Option A
  /-- `Layer::parameters`, by the instance that the list is in. -/
  parameters : Option A
  opened : Bool
  live : A → Bool

/-- The functions called on a layer. A new instance is allocated at `addr`, if one is; then
the plugin constructs its part of it or not: the constructor of frei0r returns no null
pointer, that of FreeFrame not `FF_FAIL`. -/
inductive GeneratorCall (A : Type*)
  | open (file : CString) (addr : A) (constructed : Bool)
  | close

namespace GeneratorLayer

variable {A : Type*} [DecidableEq A]

/-- `GeneratorLayer::GeneratorLayer`, with the generators then registered or not. -/
def init (generators : Option (List Generator)) : GeneratorLayer A where
  generators := generators
  generator := none
  parameters := none
  opened := false
  live := fun _ => false

/-- `generators->search` -/
def search (s : GeneratorLayer A) (file : CString) : Option Generator :=
  s.generators.bind fun generators => generators.find? fun proto => proto.name.sameNoCase file

/-- `delete generator` -/
def deleteGenerator (s : GeneratorLayer A) : GeneratorLayer A :=
  match s.generator with
  | some addr => { s with live := update s.live addr false, generator := none }
  | none => s

/-- `GeneratorLayer::close` -/
def close (s : GeneratorLayer A) : GeneratorLayer A :=
  { s.deleteGenerator with opened := false }

/-- `GeneratorLayer::open` -/
def openFile (s : GeneratorLayer A) (file : CString) (addr : A) (constructed : Bool) :
    Bool × GeneratorLayer A :=
  match s.search file with
  | none => (false, s) -- no generators registered, or generator not found
  | some _ =>
    let s := s.close
    let s := { s with generator := some addr, live := update s.live addr true }
    if constructed then (true, { s with parameters := some addr, opened := true })
    else (false, s.deleteGenerator)

/-- `Layer::~Layer`, the parameters are freed. -/
def freeParameters (s : GeneratorLayer A) : Option (GeneratorLayer A) :=
  match s.parameters with
  | none => some s
  | some list => if s.live list then some s else none

/-- `GeneratorLayer::~GeneratorLayer`, then `Layer::~Layer` -/
def destroy (s : GeneratorLayer A) : Option (GeneratorLayer A) :=
  s.close.freeParameters

/-- The layer after a call; a new instance is allocated where there is none. -/
def call (s : GeneratorLayer A) : GeneratorCall A → Option (GeneratorLayer A)
  | .open file addr constructed =>
      if s.live addr then none else some (s.openFile file addr constructed).2
  | .close => some s.close

/-- The parameters pointer is null or points into the generator, which exists. -/
def ParametersValid (s : GeneratorLayer A) : Prop :=
  s.parameters = none ∨
    ∃ addr, s.parameters = some addr ∧ s.generator = some addr ∧ s.live addr = true

/-- A call of `open` that returns `false` leaves the layer as it was. -/
def FailsClean (s : GeneratorLayer A) : GeneratorCall A → Prop
  | .open file addr constructed =>
      let r := s.openFile file addr constructed
      r.1 = false → r.2.generator = s.generator ∧ r.2.parameters = s.parameters ∧
        r.2.opened = s.opened
  | .close => True

/-- What a layer should be from its construction over the calls to its destruction. -/
structure Proper (generators : Option (List Generator)) (calls : List (GeneratorCall A)) :
    Prop where
  /-- The parameters pointer is valid in every state. -/
  valid : ∀ done s, done <+: calls → exec call (init generators) done = some s →
    s.ParametersValid
  /-- Every `open` that fails leaves the layer as it was. -/
  clean : ∀ done c s, done ++ [c] <+: calls → exec call (init generators) done = some s →
    s.FailsClean c
  /-- The destructors free the parameters of a list that exists. -/
  destroyed : ∀ s, exec call (init generators) calls = some s → s.destroy ≠ none

/-- A call that opens a generator: there is one of that name, and it can be constructed. -/
def Opens (generators : Option (List Generator)) : GeneratorCall A → Prop
  | .open file _ constructed =>
      (∃ gens, generators = some gens ∧ ∃ proto ∈ gens, proto.name.sameNoCase file) ∧
        constructed = true
  | .close => False

/-- Only the generator of the layer exists. -/
def Owned (s : GeneratorLayer A) : Prop :=
  ∀ addr, s.live addr = true → s.generator = some addr

/-- The layer has no generator and never had one. -/
structure Idle (s : GeneratorLayer A) : Prop where
  generator : s.generator = none
  parameters : s.parameters = none
  opened : s.opened = false

variable {generators : Option (List Generator)} {s t : GeneratorLayer A} {c : GeneratorCall A}
  {calls : List (GeneratorCall A)} {file : CString} {addr : A} {constructed : Bool}

omit [DecidableEq A] in
theorem search_isSome : (s.search file).isSome = true ↔
    ∃ gens, s.generators = some gens ∧ ∃ proto ∈ gens, proto.name.sameNoCase file := by
  simp only [search]
  cases s.generators <;> simp [List.find?_isSome]

@[simp] theorem close_generators : s.close.generators = s.generators := by
  simp only [close, deleteGenerator]
  split <;> rfl

@[simp] theorem close_parameters : s.close.parameters = s.parameters := by
  simp only [close, deleteGenerator]
  split <;> rfl

theorem close_generator : s.close.generator = none := by
  simp only [close, deleteGenerator]
  split
  · rfl
  · assumption

/-- Nothing is left of the generator of a layer that was closed. -/
theorem Owned.close_live (h : Owned s) (addr : A) : s.close.live addr = false := by
  rw [← Bool.not_eq_true]
  intro hl
  simp only [close, deleteGenerator] at hl
  cases hg : s.generator with
  | none =>
      simp only [hg] at hl
      exact absurd (h addr hl) (by simp [hg])
  | some g =>
      simp only [hg] at hl
      by_cases heq : addr = g
      · simp [heq] at hl
      · rw [Function.update_of_ne heq] at hl
        have := h addr hl
        rw [hg, Option.some.injEq] at this
        exact heq this.symm

/-- What `open` does: nothing, or it closes the layer and then opens the generator, or keeps
the layer closed when the generator cannot be constructed. -/
theorem openFile_cases (s : GeneratorLayer A) (file : CString) (addr : A) (constructed : Bool) :
    (s.search file = none ∧ s.openFile file addr constructed = (false, s)) ∨
    ((s.search file).isSome = true ∧ constructed = true ∧ s.openFile file addr constructed =
      (true, { s.close with
        generator := some addr, live := update s.close.live addr true, parameters := some addr,
        opened := true })) ∨
    ((s.search file).isSome = true ∧ constructed = false ∧ s.openFile file addr constructed =
      (false, { s.close with
        generator := none, live := update s.close.live addr false })) := by
  simp only [openFile]
  cases hs : s.search file with
  | none => exact .inl ⟨rfl, rfl⟩
  | some proto =>
      cases constructed with
      | true => exact .inr (.inl ⟨rfl, rfl, rfl⟩)
      | false =>
          refine .inr (.inr ⟨rfl, rfl, ?_⟩)
          simp [deleteGenerator]

/-- **Destroying a layer that has opened a generator** follows the pointer into the generator
that was just deleted. -/
theorem destroy_eq_none (h : Owned s) (hp : s.parameters ≠ none) : s.destroy = none := by
  obtain ⟨list, hlist⟩ := Option.ne_none_iff_exists'.mp hp
  simp [destroy, freeParameters, hlist, h.close_live]

/-- Whatever is called, only the generator of the layer exists. -/
theorem Owned.call (h : Owned s) (ht : s.call c = some t) : Owned t := by
  have hclosed : ∀ a, s.close.live a = true → False := fun a ha => by
    rw [h.close_live] at ha
    cases ha
  cases c with
  | close =>
      cases ht
      exact fun a ha => (hclosed a ha).elim
  | «open» file addr constructed =>
      simp only [GeneratorLayer.call] at ht
      split at ht
      · cases ht
      cases ht
      obtain ⟨-, heq⟩ | ⟨-, -, heq⟩ | ⟨-, -, heq⟩ := s.openFile_cases file addr constructed
      · rw [heq]
        exact h
      · rw [heq]
        intro a ha
        by_cases haddr : a = addr
        · rw [haddr]
        · simp only [Function.update_of_ne haddr] at ha
          exact (hclosed a ha).elim
      · rw [heq]
        intro a ha
        by_cases haddr : a = addr
        · simp [haddr] at ha
        · simp only [Function.update_of_ne haddr] at ha
          exact (hclosed a ha).elim

theorem call_generators (ht : s.call c = some t) : t.generators = s.generators := by
  cases c with
  | close =>
      cases ht
      exact close_generators
  | «open» file addr constructed =>
      simp only [GeneratorLayer.call] at ht
      split at ht
      · cases ht
      cases ht
      obtain ⟨-, heq⟩ | ⟨-, -, heq⟩ | ⟨-, -, heq⟩ := s.openFile_cases file addr constructed
      all_goals simp [heq]

/-- A call that opens a generator sets the pointer, and no call resets it. -/
theorem call_parameters (ht : s.call c = some t)
    (h : s.parameters ≠ none ∨ Opens s.generators c) : t.parameters ≠ none := by
  cases c with
  | close =>
      cases ht
      rw [close_parameters]
      exact h.resolve_right (fun hf => hf)
  | «open» file addr constructed =>
      simp only [GeneratorLayer.call] at ht
      split at ht
      · cases ht
      cases ht
      simp only [Opens, ← search_isSome] at h
      obtain ⟨hs, heq⟩ | ⟨-, -, heq⟩ | ⟨-, hc, heq⟩ := s.openFile_cases file addr constructed
      · rw [heq]
        exact h.resolve_right (by simp [hs])
      · simp [heq]
      · rw [heq]
        simpa using h.resolve_right (by simp [hc])

theorem exec_parameters (h : Owned s) (ht : exec call s calls = some t)
    (hp : s.parameters ≠ none ∨ ∃ c ∈ calls, Opens s.generators c) :
    Owned t ∧ t.parameters ≠ none := by
  induction calls generalizing s with
  | nil =>
      cases ht
      exact ⟨h, hp.resolve_right (by simp)⟩
  | cons c calls ih =>
      obtain ⟨u, hu, ht⟩ := Option.bind_eq_some_iff.mp ht
      refine ih (h.call hu) ht ?_
      rw [call_generators hu]
      obtain hp | ⟨c', hc', ho⟩ := hp
      · exact .inl (call_parameters hu (.inl hp))
      · obtain rfl | hmem := List.mem_cons.mp hc'
        · exact .inl (call_parameters hu (.inr ho))
        · exact .inr ⟨c', hmem, ho⟩

theorem Idle.close (h : Idle s) : Idle s.close :=
  ⟨close_generator, close_parameters.trans h.parameters, rfl⟩

/-- A layer without a generator stays so while none is opened. -/
theorem Idle.openFile (h : Idle s) (ho : ¬ Opens s.generators (.open file addr constructed)) :
    (s.openFile file addr constructed).1 = false ∧
      Idle (s.openFile file addr constructed).2 := by
  simp only [Opens, ← search_isSome] at ho
  obtain ⟨-, heq⟩ | ⟨hs, hc, -⟩ | ⟨-, -, heq⟩ := s.openFile_cases file addr constructed
  · rw [heq]
    exact ⟨rfl, h⟩
  · exact absurd ⟨hs, hc⟩ ho
  · rw [heq]
    exact ⟨rfl, rfl, h.close.parameters, rfl⟩

theorem Idle.call (h : Idle s) (ho : ¬ Opens s.generators c) (ht : s.call c = some t) : Idle t := by
  cases c with
  | close =>
      cases ht
      exact h.close
  | «open» file addr constructed =>
      simp only [GeneratorLayer.call] at ht
      split at ht
      · cases ht
      cases ht
      exact (h.openFile ho).2

theorem exec_idle (h : Idle s) (ht : exec call s calls = some t)
    (ho : ∀ c ∈ calls, ¬ Opens s.generators c) : Idle t ∧ t.generators = s.generators := by
  induction calls generalizing s with
  | nil =>
      cases ht
      exact ⟨h, rfl⟩
  | cons c calls ih =>
      obtain ⟨u, hu, ht⟩ := Option.bind_eq_some_iff.mp ht
      have hg := call_generators hu
      have hrest : ∀ c' ∈ calls, ¬ Opens u.generators c' := by
        intro c' hc'
        rw [hg]
        exact ho c' (List.mem_cons_of_mem _ hc')
      obtain ⟨hi, hgt⟩ := ih (h.call (ho c List.mem_cons_self) hu) ht hrest
      exact ⟨hi, hgt.trans hg⟩

omit [DecidableEq A] in
theorem idle_init : Idle (init generators : GeneratorLayer A) := ⟨rfl, rfl, rfl⟩

/-- **A life without a generator.** From its construction over any calls to its destruction a
layer is as it should be if and only if none of the calls opens a generator. -/
theorem generator_layer_iff (hrun : exec call (init generators) calls = some s) :
    Proper generators calls ↔ ∀ c ∈ calls, ¬ Opens generators c := by
  constructor
  · intro h c hc ho
    have howned : Owned (init generators : GeneratorLayer A) := fun a ha => by cases ha
    obtain ⟨hs, hp⟩ := exec_parameters howned hrun (.inr ⟨c, hc, ho⟩)
    exact h.destroyed s hrun (destroy_eq_none hs hp)
  · intro ho
    have hidle : ∀ done t, done <+: calls → exec call (init generators) done = some t →
        Idle t ∧ t.generators = generators :=
      fun done t hd ht => exec_idle idle_init ht fun c hc => ho c (hd.subset hc)
    refine ⟨fun done t hd ht => .inl (hidle done t hd ht).1.parameters,
      fun done c t hd ht => ?_, fun t ht => ?_⟩
    · have hdone : done <+: calls := (List.prefix_append done [c]).trans hd
      obtain ⟨hi, hg⟩ := hidle done t hdone ht
      cases c with
      | close => trivial
      | «open» file addr constructed =>
          intro hfalse
          have hno : ¬ Opens t.generators (.open file addr constructed) :=
            hg ▸ ho _ (hd.subset (by simp))
          obtain ⟨-, hi'⟩ := hi.openFile hno
          exact ⟨hi'.generator.trans hi.generator.symm, hi'.parameters.trans hi.parameters.symm,
            hi'.opened.trans hi.opened.symm⟩
    · have hp := (hidle calls t (List.prefix_refl _) ht).1.parameters
      simp [destroy, freeParameters, hp]

/-- A generator of the name `a`. -/
def oneGenerator : Option (List Generator) := some [⟨.literal ['a']⟩]

/-- A layer whose generator cannot be constructed. -/
theorem generator_layer_fails :
    Proper oneGenerator [(.open (.literal ['a']) 0 false : GeneratorCall ℕ), .close] :=
  (generator_layer_iff rfl).mpr (by simp [Opens])

/-- A layer that opens its generator and is destroyed. -/
theorem generator_layer_dangling :
    ¬ Proper oneGenerator [(.open (.literal ['a']) 0 true : GeneratorCall ℕ)] :=
  fun h => h.destroyed _ rfl rfl

end GeneratorLayer

end FreeJ
