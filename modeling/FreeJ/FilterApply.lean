import FreeJ.Freeframe

/-!
# Applying a Filter

`Filter::apply` of `filter.cpp`, with the `apply` and the `destruct` of each kind of plugin, of
`freeframe.cpp` and `frei0r.cpp`, and the destructor of `filter_instance.cpp`. The instance is
made by `Filter::apply(Layer *)`, and deleted there when the `apply` of the plugin returns
false; on the way the plugin may refuse to make an instance of its own, and the frame of the
layer may not be allocated. The destructor calls the plugin back.

Deleting an instance that does not exist is undefined and has no result. How often the plugin
made an instance and how often it was told to destroy one are counted, and the instances that
were deleted recorded.

## Main results

* `Filter.apply_of_alloc`, `Filter.apply_of_refused`, `Filter.apply_of_no_alloc`: what an
  application comes to.
* `filter_apply_clean_iff`: when it either succeeds or leaves nothing behind.
-/

namespace FreeJ

open Function (update)

/-- The classes of filters: the functions of `Filter` itself, and those of a plugin. -/
inductive FilterKind
  | base
  | freeframe
  | freior
  deriving DecidableEq

/-- `FilterInstance` with `core`, a pointer. -/
structure PluginInstance (L : Type*) extends FilterInstance L where
  core : ℕ

/-- `FilterInstance::FilterInstance` -/
def PluginInstance.new {L : Type*} : PluginInstance L where
  intcore := 0
  outframe := none
  layer := none
  core := 0

/-- A filter, its instances and the lists of filters of the layers. -/
structure FilterState (I L : Type*) where
  /-- `Filter::bytesize`, an `int`. -/
  bytesize : ℤ
  instances : I → Option (PluginInstance L)
  /-- `Layer::filters` -/
  filters : L → List I
  /-- How often the plugin made an instance. -/
  constructs : ℕ
  /-- How often it was told to destroy one. -/
  destructs : ℕ
  deleted : List I

variable {I L : Type*} [DecidableEq I] [DecidableEq L]

/-- `Filter::destruct`, `Freeframe::destruct` and `Freior::destruct` -/
def Filter.destruct (kind : FilterKind) (s : FilterState I L) (inst : PluginInstance L) :
    FilterState I L :=
  match kind with
  | .base => s
  | .freeframe => { s with destructs := s.destructs + 1 } -- whatever `intcore` is
  | .freior => if inst.core ≠ 0 then { s with destructs := s.destructs + 1 } else s

/-- `delete` of an instance, which is removed from the list it is in. -/
def FilterInstance.delete (kind : FilterKind) (s : FilterState I L) (i : I) :
    Option (FilterState I L) :=
  (s.instances i).map fun inst =>
    let s := Filter.destruct kind s inst
    { s with
      instances := update s.instances i none
      filters := fun lay => (s.filters lay).erase i
      deleted := s.deleted ++ [i] }

section Apply

variable (geo : L → FrameGeometry) (kind : FilterKind)

/-- `Filter::apply(Layer *, FilterInstance *)`, where `calloc` succeeds or sets `errno`. -/
def Filter.applyInstance (s : FilterState I L) (lay : L) (i : I) (alloc : Bool) :
    Option (Bool × FilterState I L) :=
  (s.instances i).bind fun inst =>
    if alloc then
      let inst := { inst with
        outframe := some (Block.calloc 0 (size_t (geo lay).bytesize))
        layer := some lay }
      some (true,
        { s with
          bytesize := int32 (geo lay).bytesize
          instances := update s.instances i (some inst)
          filters := update s.filters lay (s.filters lay ++ [i]) })
    else (FilterInstance.delete kind s i).map fun s => (false, s)

/-- The `apply` of each kind of filter with an instance; a plugin returns `core`. -/
def Filter.applyKind (s : FilterState I L) (lay : L) (i : I) (core : ℕ) (alloc : Bool) :
    Option (Bool × FilterState I L) :=
  match kind with
  | .base => Filter.applyInstance geo kind s lay i alloc
  | .freeframe =>
      (s.instances i).bind fun inst =>
        let s := { s with instances := update s.instances i (some { inst with intcore := core }) }
        if core = FF_FAIL then some (false, s)
        else Filter.applyInstance geo kind { s with constructs := s.constructs + 1 } lay i alloc
  | .freior =>
      (s.instances i).bind fun inst =>
        let s := { s with instances := update s.instances i (some { inst with core := core }) }
        if core = 0 then some (false, s)
        else Filter.applyInstance geo kind { s with constructs := s.constructs + 1 } lay i alloc

/-- `Filter::apply(Layer *)`, where `new_instance` makes the instance `i`. -/
def Filter.apply (s : FilterState I L) (lay : L) (i : I) (core : ℕ) (alloc : Bool) :
    Option (Option I × FilterState I L) :=
  let s := { s with instances := update s.instances i (some .new) }
  (Filter.applyKind geo kind s lay i core alloc).bind fun r =>
    if r.1 then some (some i, r.2)
    else (FilterInstance.delete kind r.2 i).map fun s => (none, s)

end Apply

/-! ### FreeFrame filters -/

/-- What a FreeFrame filter and its copies depend on. -/
def FilterState.view (s : FilterState I L) (applied : List L) : Freeframe I L where
  bytesize := s.bytesize
  instances i := (s.instances i).map fun inst => inst.toFilterInstance
  applied := applied

omit [DecidableEq L] in
theorem FilterState.view_update (s : FilterState I L) (i : I) (x : Option (PluginInstance L)) :
    (fun j => (update s.instances i x j).map fun inst => inst.toFilterInstance) =
      update (fun j => (s.instances j).map fun inst => inst.toFilterInstance) i
        (x.map fun inst => inst.toFilterInstance) := by
  funext j
  by_cases hj : j = i
  · subst hj
    simp
  · simp [Function.update_of_ne hj]

/-- `Freeframe::apply` is the one that the copies of the frames were described by. -/
theorem Filter.applyKind_freeframe (geo : L → FrameGeometry) (s : FilterState I L) (lay : L)
    (i : I) (core : ℕ) (alloc : Bool) (applied : List L) :
    (Filter.applyKind geo .freeframe s lay i core alloc).map
        (fun r => (r.1, r.2.view (if r.1 then applied ++ [lay] else applied))) =
      Freeframe.apply geo (s.view applied) lay i core alloc := by
  cases hi : s.instances i with
  | none => simp [Filter.applyKind, Freeframe.apply, FilterState.view, hi]
  | some inst =>
      by_cases hcore : core = FF_FAIL
      · simp [Filter.applyKind, Freeframe.apply, FilterState.view, hi, hcore,
          FilterState.view_update]
      · cases alloc <;>
          simp [Filter.applyKind, Freeframe.apply, FilterState.view, hi, hcore,
            FilterState.view_update, Filter.applyInstance, Freeframe.filterApply,
            FilterInstance.delete, Filter.destruct]

/-! ### What an application should come to -/

/-- The address of an instance is not in use. -/
structure FilterState.Unused (s : FilterState I L) (i : I) : Prop where
  instances : s.instances i = none
  filters : ∀ lay, i ∉ s.filters lay

/-- The plugin makes an instance of its own; a filter without plugin needs none. -/
def FilterKind.Makes (core : ℕ) : FilterKind → Prop
  | .base => True
  | .freeframe => core ≠ FF_FAIL
  | .freior => core ≠ 0

/-- The instance is there, in the last place of the list of filters of its layer, with a frame
of the size of the layer. -/
structure FilterState.Applied (geo : L → FrameGeometry) (s t : FilterState I L) (lay : L)
    (i : I) : Prop where
  filters : t.filters = update s.filters lay (s.filters lay ++ [i])
  live : ∃ inst frame, t.instances i = some inst ∧ inst.outframe = some frame ∧
    (frame.size : ℤ) = (geo lay).bytesize ∧ inst.layer = some lay

/-- Nothing is left: the lists and the filter are as they were, the instance was deleted once,
and the plugin was told to destroy an instance as often as it made one. -/
structure FilterState.Undone (s t : FilterState I L) (i : I) : Prop where
  filters : t.filters = s.filters
  bytesize : t.bytesize = s.bytesize
  instances : t.instances = s.instances
  deleted : t.deleted = s.deleted ++ [i]
  destructs : t.destructs + s.constructs = s.destructs + t.constructs

/-- An application succeeds, or it returns `NULL` and nothing is left. -/
def FilterState.Clean (geo : L → FrameGeometry) (s : FilterState I L) (lay : L) (i : I)
    (r : Option (Option I × FilterState I L)) : Prop :=
  (∃ t, r = some (some i, t) ∧ s.Applied geo t lay i) ∨ ∃ t, r = some (none, t) ∧ s.Undone t i

/-! ### What it comes to -/

section Outcomes

variable {geo : L → FrameGeometry} {kind : FilterKind} {s : FilterState I L} {lay : L} {i : I}
  {core : ℕ} {alloc : Bool}

variable (geo lay alloc) in
/-- When the plugin makes its instance, `Filter::apply` goes on. -/
theorem Filter.applyKind_of_makes {inst : PluginInstance L} (hi : s.instances i = some inst)
    (hmakes : kind.Makes core) :
    ∃ inst' n, Filter.applyKind geo kind s lay i core alloc =
      Filter.applyInstance geo kind
        { s with instances := update s.instances i (some inst'), constructs := n } lay i alloc := by
  cases kind with
  | base =>
      refine ⟨inst, s.constructs, ?_⟩
      rw [← hi, Function.update_eq_self]
      rfl
  | freeframe =>
      refine ⟨{ inst with intcore := core }, s.constructs + 1, ?_⟩
      simp only [Filter.applyKind, hi, Option.bind_some]
      rw [if_neg hmakes]
  | freior =>
      refine ⟨{ inst with core := core }, s.constructs + 1, ?_⟩
      simp only [Filter.applyKind, hi, Option.bind_some]
      rw [if_neg hmakes]

variable (geo s lay i) in
/-- **Success.** -/
theorem Filter.apply_of_alloc (hmakes : kind.Makes core) :
    ∃ t, Filter.apply geo kind s lay i core true = some (some i, t) ∧ s.Applied geo t lay i := by
  obtain ⟨inst, n, hkind⟩ := Filter.applyKind_of_makes geo lay true
    (s := { s with instances := update s.instances i (some .new) }) (Function.update_self ..)
    hmakes
  simp only [Filter.apply, hkind, Filter.applyInstance, Function.update_self, Option.bind_some,
    if_true]
  refine ⟨_, rfl, rfl, _, _, Function.update_self .., rfl, ?_, rfl⟩
  exact Freeframe.size_t_bytesize (geo lay)

/-- **No frame.** The instance is deleted by the one `apply`, and then by the other, where it
does not exist any more. -/
theorem Filter.apply_of_no_alloc (hmakes : kind.Makes core) :
    Filter.apply geo kind s lay i core false = none := by
  obtain ⟨inst, n, hkind⟩ := Filter.applyKind_of_makes geo lay false
    (s := { s with instances := update s.instances i (some .new) }) (Function.update_self ..)
    hmakes
  simp only [Filter.apply, hkind, Filter.applyInstance, FilterInstance.delete,
    Function.update_self, Option.bind_some, Option.map_some, Bool.false_eq_true, if_false,
    Option.map_none]

omit [DecidableEq L] in
/-- An entry that is in no list is in none after it was removed. -/
theorem FilterState.Unused.erase (hi : s.Unused i) :
    (fun lay => (s.filters lay).erase i) = s.filters :=
  funext fun lay => List.erase_of_not_mem (hi.filters lay)

variable (geo lay alloc) in
/-- **Refused.** The plugin makes no instance, and the one of the filter is deleted once; only
`Freior::destruct` sees that there is nothing to destroy. -/
theorem Filter.apply_of_refused (hi : s.Unused i) (hmakes : ¬ kind.Makes core) :
    ∃ t, Filter.apply geo kind s lay i core alloc = some (none, t) ∧ t.filters = s.filters ∧
      t.bytesize = s.bytesize ∧ t.instances = s.instances ∧ t.deleted = s.deleted ++ [i] ∧
      t.constructs = s.constructs ∧
      t.destructs = s.destructs + if kind = .freeframe then 1 else 0 := by
  have hinst : update s.instances i none = s.instances := by
    rw [← hi.instances, Function.update_eq_self]
  cases kind with
  | base => exact absurd trivial hmakes
  | freeframe =>
      obtain rfl : core = FF_FAIL := not_not.1 hmakes
      simp only [Filter.apply, Filter.applyKind, FilterInstance.delete, Filter.destruct,
        Function.update_self, Option.bind_some, Option.map_some, if_true, Bool.false_eq_true,
        if_false, Function.update_idem]
      exact ⟨_, rfl, hi.erase, rfl, hinst, rfl, rfl, rfl⟩
  | freior =>
      obtain rfl : core = 0 := not_not.1 hmakes
      simp only [Filter.apply, Filter.applyKind, FilterInstance.delete, Filter.destruct,
        Function.update_self, Option.bind_some, Option.map_some, if_true, Bool.false_eq_true,
        if_false, Function.update_idem, ne_eq, not_true_eq_false]
      exact ⟨_, rfl, hi.erase, rfl, hinst, rfl, rfl, rfl⟩

end Outcomes

/-- When an application is clean: a frame is allocated, unless a frei0r plugin refuses; a
FreeFrame plugin must not refuse. -/
def FilterKind.CleanWhen (core : ℕ) (alloc : Bool) : FilterKind → Prop
  | .base => alloc = true
  | .freeframe => core ≠ FF_FAIL ∧ alloc = true
  | .freior => core = 0 ∨ alloc = true

/-- **Applying a filter.** Whatever the kind of the filter, the layer, what the plugin returns
and whether the frame is allocated: the application succeeds, with the instance in the last
place of the list of the layer, or returns `NULL` with nothing left, if and only if the frame
is allocated and the plugin made its instance, or a frei0r plugin did not. -/
theorem filter_apply_clean_iff (geo : L → FrameGeometry) (kind : FilterKind)
    (s : FilterState I L) (lay : L) (i : I) (core : ℕ) (alloc : Bool) (hi : s.Unused i) :
    s.Clean geo lay i (Filter.apply geo kind s lay i core alloc) ↔ kind.CleanWhen core alloc := by
  by_cases hmakes : kind.Makes core
  · cases alloc with
    | true =>
        obtain ⟨t, happly, happlied⟩ := Filter.apply_of_alloc geo s lay i hmakes
        refine iff_of_true (Or.inl ⟨t, happly, happlied⟩) ?_
        cases kind with
        | base => rfl
        | freeframe => exact ⟨hmakes, rfl⟩
        | freior => exact Or.inr rfl
    | false =>
        rw [Filter.apply_of_no_alloc hmakes]
        refine iff_of_false (by rintro (⟨t, h, -⟩ | ⟨t, h, -⟩) <;> cases h) ?_
        cases kind with
        | base => exact Bool.false_ne_true
        | freeframe => exact fun h => Bool.false_ne_true h.2
        | freior => exact fun h => h.elim hmakes Bool.false_ne_true
  · obtain ⟨t, happly, hfilters, hbytesize, hinstances, hdeleted, hconstructs, hdestructs⟩ :=
      Filter.apply_of_refused geo lay alloc hi hmakes
    rw [happly]
    cases kind with
    | base => exact absurd trivial hmakes
    | freeframe =>
        refine iff_of_false ?_ fun h => hmakes h.1
        rintro (⟨u, h, -⟩ | ⟨u, h, hundone⟩)
        · cases h
        · obtain rfl : t = u := by simpa using h
          have hcount := hundone.destructs
          rw [hdestructs, hconstructs, if_pos rfl] at hcount
          omega
    | freior =>
        refine iff_of_true (Or.inr ⟨t, rfl, hfilters, hbytesize, hinstances, hdeleted, ?_⟩)
          (Or.inl (not_not.1 hmakes))
        rw [hdestructs, hconstructs, if_neg (by simp)]
        rfl

/-- A filter that was not applied yet. -/
def FilterState.init : FilterState I L where
  bytesize := 0
  instances := fun _ => none
  filters := fun _ => []
  constructs := 0
  destructs := 0
  deleted := []

omit [DecidableEq I] [DecidableEq L] in
theorem FilterState.init_unused (i : I) : (FilterState.init : FilterState I L).Unused i :=
  ⟨rfl, fun _ => List.not_mem_nil⟩

/-- A frei0r plugin that makes no instance, and one that does. -/
theorem filter_apply_clean_freior :
    FilterState.Clean Freeframe.twoLayers .init true 0
        (Filter.apply Freeframe.twoLayers .freior (.init : FilterState ℕ Bool) true 0 0 false) ∧
      FilterState.Clean Freeframe.twoLayers .init true 0
        (Filter.apply Freeframe.twoLayers .freior (.init : FilterState ℕ Bool) true 0 7 true) :=
  ⟨(filter_apply_clean_iff Freeframe.twoLayers .freior .init true 0 0 false
      (FilterState.init_unused 0)).2 (Or.inl rfl),
    (filter_apply_clean_iff Freeframe.twoLayers .freior .init true 0 7 true
      (FilterState.init_unused 0)).2 (Or.inr rfl)⟩

/-- No memory for the frame: the instance is deleted a second time. A FreeFrame plugin that
makes no instance is told to destroy it. -/
theorem filter_apply_not_clean :
    Filter.apply Freeframe.twoLayers .base (.init : FilterState ℕ Bool) true 0 0 false = none ∧
      ¬ FilterState.Clean Freeframe.twoLayers (.init : FilterState ℕ Bool) true 0 none ∧
      ∃ t, Filter.apply Freeframe.twoLayers .freeframe (.init : FilterState ℕ Bool) true 0 FF_FAIL
          true = some (none, t) ∧
        t.constructs = 0 ∧ t.destructs = 1 ∧
        ¬ FilterState.Clean Freeframe.twoLayers .init true 0 (some (none, t)) := by
  refine ⟨rfl, ?_, _, rfl, rfl, rfl, ?_⟩
  · rintro (⟨t, h, -⟩ | ⟨t, h, -⟩) <;> cases h
  · rintro (⟨u, h, -⟩ | ⟨u, h, hundone⟩)
    · cases h
    · obtain rfl := congrArg Prod.snd (Option.some.inj h)
      have hcount := hundone.destructs
      cases hcount

end FreeJ
