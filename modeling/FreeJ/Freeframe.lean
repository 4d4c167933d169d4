import Mathlib.Data.Option.Basic
import FreeJ.Blitter
import FreeJ.Memory
import FreeJ.Transition

/-!
# FreeFrame Filters

`freeframe.cpp`, `filter.cpp` and `filter_instance.cpp`. One `Filter` makes an instance for
each layer it is applied to. The instance owns `outframe`, allocated with the size of the
frame of its layer; how much `update` copies into it is `Filter::bytesize`, which every
application sets.

`size_t` has 64 bits. Copying out of the bounds of a frame, or for an instance that does not
exist, is `none`. The layers that the filter was applied to are recorded.

## Main results

* `Freeframe.Inv`: what holds of the filter and its instances in every run.
* `freeframe_copies_iff`: an instance copies the frame of its layer if and only if the filter
  was applied last to a layer whose frame has the same size.
-/

namespace FreeJ

open Function (update)
open Transition

/-- `FF_FAIL` -/
def FF_FAIL : ℕ := 0xFFFFFFFF

/-- `Geometry` with the bits of a pixel. -/
structure FrameGeometry extends Geometry where
  bpp : ℤ
  bpp_range : 0 ≤ bpp ∧ bpp < 2 ^ 8

/-- `Geometry::bytesize` as `Geometry::init` sets it, the size of the whole frame in bytes. -/
def FrameGeometry.bytesize (geo : FrameGeometry) : ℤ :=
  uint32 (geo.w * geo.h * (geo.bpp / 8))

/-- What an `int` becomes when it is passed as a `size_t`. -/
def size_t (z : ℤ) : ℕ := (z % 2 ^ 64).toNat

/-- A frame buffer. -/
abbrev Frame := Block (BitVec 8)

instance nontrivial_byte : Nontrivial (BitVec 8) := ⟨⟨0, 1, by decide⟩⟩

/-- `FilterInstance` -/
structure FilterInstance (L : Type*) where
  intcore : ℕ
  outframe : Option Frame
  layer : Option L

/-- An instance just made. -/
def FilterInstance.fresh {L : Type*} : FilterInstance L where
  intcore := 0
  outframe := none
  layer := none

/-- `Freeframe`, its instances and the layers it was applied to. -/
structure Freeframe (I L : Type*) where
  /-- `Filter::bytesize`, an `int`. -/
  bytesize : ℤ
  instances : I → Option (FilterInstance L)
  applied : List L

/-- What happens to a filter: an instance is made; the filter is applied to a layer, where
the plugin returns `intcore` and `calloc` succeeds or not; an instance processes a frame,
where `plugin` does what `FF_PROCESSFRAME` does. -/
inductive FreeframeCall (I L : Type*)
  | new_instance (i : I)
  | apply (lay : L) (i : I) (intcore : ℕ) (alloc : Bool)
  | process (i : I) (inframe : Frame)
      (plugin : (n : ℕ) → (Fin n → BitVec 8) → Fin n → BitVec 8)

namespace Freeframe

variable {I L : Type*} [DecidableEq I] (geo : L → FrameGeometry)

/-- The filter before it makes an instance. -/
def init : Freeframe I L where
  bytesize := 0
  instances := fun _ => none
  applied := []

/-- `Filter::apply` -/
def filterApply (s : Freeframe I L) (lay : L) (i : I) (inst : FilterInstance L) (alloc : Bool) :
    Bool × Freeframe I L :=
  if alloc then
    let inst := { inst with
      outframe := some (Block.calloc 0 (size_t (geo lay).bytesize))
      layer := some lay }
    (true,
      { bytesize := int32 (geo lay).bytesize
        instances := update s.instances i (some inst)
        applied := s.applied ++ [lay] })
  else (false, { s with instances := update s.instances i none }) -- delete instance

/-- `Freeframe::apply` -/
def apply (s : Freeframe I L) (lay : L) (i : I) (intcore : ℕ) (alloc : Bool) :
    Option (Bool × Freeframe I L) :=
  (s.instances i).map fun inst =>
    let inst := { inst with intcore := intcore }
    if intcore = FF_FAIL then
      (false, { s with instances := update s.instances i (some inst) })
    else filterApply geo s lay i inst alloc

/-- `Freeframe::update`, the copy made before the plugin is called. There are no parameters
to be applied before. -/
def copyFrame (s : Freeframe I L) (inst : FilterInstance L) (inframe : Frame) : Option Frame :=
  inst.outframe.bind fun outframe => outframe.memcpy inframe (size_t s.bytesize)

/-- `FilterInstance::process` -/
def process (s : Freeframe I L) (i : I) (inframe : Frame)
    (plugin : (n : ℕ) → (Fin n → BitVec 8) → Fin n → BitVec 8) :
    Option (Frame × Freeframe I L) :=
  (s.instances i).bind fun inst =>
    (s.copyFrame inst inframe).map fun outframe =>
      let outframe := ⟨outframe.size, plugin outframe.size outframe.data⟩
      (outframe,
        { s with
          instances := update s.instances i (some { inst with outframe := some outframe }) })

/-- The frame is one of the layer that the instance was applied to: it was fed by the layer,
or it is the output of another filter on it. -/
def Feeds (s : Freeframe I L) (i : I) (inframe : Frame) : Prop :=
  ∃ inst lay, s.instances i = some inst ∧ inst.layer = some lay ∧
    inframe.size = size_t (geo lay).bytesize

/-- The runs of a filter. -/
def system : System (Freeframe I L) (FreeframeCall I L) where
  init s := s = init
  step s call t :=
    match call with
    | .new_instance i => s.instances i = none ∧
        t = { s with instances := update s.instances i (some .fresh) }
    | .apply lay i intcore alloc => ∃ b, s.apply geo lay i intcore alloc = some (b, t)
    | .process i inframe plugin => Feeds geo s i inframe ∧
        ∃ outframe, s.process i inframe plugin = some (outframe, t)

/-- An update of the instance copies the frame of the layer, whatever it holds: it stays
inside of both buffers, and nothing of the output is left from before. -/
def CopiesFrame (s : Freeframe I L) (inst : FilterInstance L) (lay : L) : Prop :=
  ∀ inframe : Frame, inframe.size = size_t (geo lay).bytesize →
    s.copyFrame inst inframe = some inframe

/-- The filter was applied last to a layer whose frame has the size of this one, and an
`int` holds that size. -/
def SameSize (s : Freeframe I L) (lay : L) : Prop :=
  ∃ last, s.applied.getLast? = some last ∧ (geo last).bytesize = (geo lay).bytesize ∧
    (geo lay).bytesize < 2 ^ 31

/-- What holds of the filter and its instances. -/
structure Inv (s : Freeframe I L) : Prop where
  /-- The filter has the size of the layer it was applied to last. -/
  bytesize : s.bytesize = (s.applied.getLast?.map fun lay => int32 (geo lay).bytesize).getD 0
  /-- An instance that was applied has a buffer for the frame of its layer. -/
  outframe : ∀ i inst lay, s.instances i = some inst → inst.layer = some lay →
    ∃ outframe, inst.outframe = some outframe ∧ outframe.size = size_t (geo lay).bytesize
  applied : ∀ i inst lay, s.instances i = some inst → inst.layer = some lay → lay ∈ s.applied

variable {geo} {s t : Freeframe I L} {i : I} {inst : FilterInstance L} {lay : L}

theorem bytesize_range (g : FrameGeometry) : 0 ≤ g.bytesize ∧ g.bytesize < 2 ^ 32 := by
  simp only [FrameGeometry.bytesize, uint32]
  omega

/-- A size that is passed as it is. -/
theorem size_t_bytesize (g : FrameGeometry) : (size_t g.bytesize : ℤ) = g.bytesize := by
  have := bytesize_range g
  simp only [size_t]
  omega

/-- An `int` that was assigned a size is passed as another one only when they are equal and
fit. -/
theorem size_t_int32_iff (g g' : FrameGeometry) :
    (size_t (int32 g.bytesize) : ℤ) = g'.bytesize ↔
      g.bytesize = g'.bytesize ∧ g'.bytesize < 2 ^ 31 := by
  have h := bytesize_range g
  have h' := bytesize_range g'
  simp only [size_t, int32, Int.bmod]
  constructor
  · split <;> omega
  · rintro ⟨heq, hlt⟩
    split <;> omega

omit [DecidableEq I] in
theorem inv_init : Inv geo (init : Freeframe I L) := by
  constructor <;> simp [init]

/-- An instance after it was applied. -/
def applied_instance (geo : L → FrameGeometry) (lay : L) (intcore : ℕ) : FilterInstance L where
  intcore := intcore
  outframe := some (Block.calloc 0 (size_t (geo lay).bytesize))
  layer := some lay

/-- **What an application does.** Only the last case succeeds and sets the size. -/
theorem apply_cases {intcore : ℕ} {alloc b : Bool}
    (h : s.apply geo lay i intcore alloc = some (b, t)) :
    ∃ inst, s.instances i = some inst ∧
      ((b = false ∧
          t =
            { s with instances := update s.instances i (some { inst with intcore := intcore }) }) ∨
        (b = false ∧ t = { s with instances := update s.instances i none }) ∨
        (b = true ∧
          t = { bytesize := int32 (geo lay).bytesize
                instances := update s.instances i (some (applied_instance geo lay intcore))
                applied := s.applied ++ [lay] })) := by
  obtain ⟨inst, hi, ht⟩ := Option.map_eq_some_iff.mp h
  refine ⟨inst, hi, ?_⟩
  dsimp only at ht
  split at ht
  · cases ht
    exact .inl ⟨rfl, rfl⟩
  · cases alloc with
    | false =>
        cases ht
        exact .inr (.inl ⟨rfl, rfl⟩)
    | true =>
        cases ht
        exact .inr (.inr ⟨rfl, rfl⟩)

/-- What processing a frame does: an output of the same size is replaced. -/
theorem process_cases {inframe outframe : Frame}
    {plugin : (n : ℕ) → (Fin n → BitVec 8) → Fin n → BitVec 8}
    (h : s.process i inframe plugin = some (outframe, t)) :
    ∃ inst old, s.instances i = some inst ∧ inst.outframe = some old ∧
      outframe.size = old.size ∧
      t = { s with
            instances := update s.instances i (some { inst with outframe := some outframe }) } := by
  obtain ⟨inst, hi, h⟩ := Option.bind_eq_some_iff.mp h
  obtain ⟨copied, hc, h⟩ := Option.map_eq_some_iff.mp h
  obtain ⟨old, ho, hc⟩ := Option.bind_eq_some_iff.mp hc
  simp only [Prod.mk.injEq] at h
  obtain ⟨rfl, rfl⟩ := h
  have hsize : copied.size = old.size := Block.memcpy_size hc
  exact ⟨inst, old, hi, ho, hsize, rfl⟩

/-- The instances after one was replaced or deleted. -/
theorem Inv.instances (h : Inv geo s) {new : Option (FilterInstance L)}
    (hnew : ∀ inst lay, new = some inst → inst.layer = some lay →
      (∃ outframe, inst.outframe = some outframe ∧
        outframe.size = size_t (geo lay).bytesize) ∧ lay ∈ s.applied) :
    Inv geo { s with instances := update s.instances i new } := by
  have hall : ∀ j inst lay, update s.instances i new j = some inst → inst.layer = some lay →
      (∃ outframe, inst.outframe = some outframe ∧
        outframe.size = size_t (geo lay).bytesize) ∧ lay ∈ s.applied := by
    intro j inst lay hj hl
    by_cases hji : j = i
    · subst hji
      rw [Function.update_self] at hj
      exact hnew inst lay hj hl
    · rw [Function.update_of_ne hji] at hj
      exact ⟨h.outframe j inst lay hj hl, h.applied j inst lay hj hl⟩
  exact ⟨h.bytesize, fun j inst lay hj hl => (hall j inst lay hj hl).1,
    fun j inst lay hj hl => (hall j inst lay hj hl).2⟩

omit [DecidableEq I] in
/-- Applying the filter to one more layer. -/
theorem Inv.record (h : Inv geo s) (lay : L) :
    Inv geo { s with bytesize := int32 (geo lay).bytesize, applied := s.applied ++ [lay] } :=
  ⟨by simp, h.outframe, fun i inst lay' hi hl =>
    List.mem_append_left _ (h.applied i inst lay' hi hl)⟩

/-- **Every step keeps the invariant.** -/
theorem Inv.step (h : Inv geo s) {call : FreeframeCall I L}
    (hst : (system geo).step s call t) : Inv geo t := by
  cases call with
  | new_instance i =>
      obtain ⟨-, rfl⟩ := hst
      refine h.instances fun inst lay hi hl => ?_
      cases hi
      cases hl
  | apply lay i intcore alloc =>
      obtain ⟨b, ht⟩ := hst
      obtain ⟨inst, hi, ⟨-, rfl⟩ | ⟨-, rfl⟩ | ⟨-, rfl⟩⟩ := apply_cases ht
      · refine h.instances fun inst' lay' hi' hl => ?_
        cases hi'
        exact ⟨h.outframe i inst lay' hi hl, h.applied i inst lay' hi hl⟩
      · exact h.instances fun inst' lay' hi' => nomatch hi'
      · refine (h.record lay).instances fun inst' lay' hi' hl => ?_
        cases hi'
        cases hl
        exact ⟨⟨_, rfl, rfl⟩, by simp⟩
  | process i inframe plugin =>
      obtain ⟨-, outframe, ht⟩ := hst
      obtain ⟨inst, old, hi, ho, hsize, rfl⟩ := process_cases ht
      refine h.instances fun inst' lay' hi' hl => ?_
      cases hi'
      obtain ⟨out, hout, hs⟩ := h.outframe i inst lay' hi hl
      rw [ho, Option.some.injEq] at hout
      subst hout
      exact ⟨⟨outframe, rfl, hsize.trans hs⟩, h.applied i inst lay' hi hl⟩

theorem inv_reachable (h : Reachable (system geo) s) : Inv geo s :=
  Invariant.holds ⟨fun _ h0 => h0 ▸ inv_init, fun _ _ _ hi hst => hi.step hst⟩ h

omit [DecidableEq I] in
/-- An instance that was applied copies the frame of its layer when it copies as many bytes
as that has, and only then. -/
theorem Inv.copiesFrame_iff (h : Inv geo s) (hi : s.instances i = some inst)
    (hl : inst.layer = some lay) :
    CopiesFrame geo s inst lay ↔ (size_t s.bytesize : ℤ) = (geo lay).bytesize := by
  obtain ⟨out, hout, hsize⟩ := h.outframe i inst lay hi hl
  have hlen : (size_t s.bytesize : ℤ) = (geo lay).bytesize ↔ size_t s.bytesize = out.size := by
    have := size_t_bytesize (geo lay)
    rw [hsize]
    omega
  rw [hlen, ← Block.memcpy_all_iff]
  simp only [CopiesFrame, copyFrame, hout, Option.bind_some, hsize]

/-- **The frame of its own layer.** In every run, an instance copies exactly the frame of the
layer it was applied to if and only if the filter was applied last to a layer with a frame of
that size. -/
theorem freeframe_copies_iff (h : Reachable (system geo) s) (hi : s.instances i = some inst)
    (hl : inst.layer = some lay) : CopiesFrame geo s inst lay ↔ SameSize geo s lay := by
  have hinv := inv_reachable h
  have hmem := hinv.applied i inst lay hi hl
  obtain ⟨last, hlast⟩ : ∃ last, s.applied.getLast? = some last :=
    Option.isSome_iff_exists.mp (by simpa using List.ne_nil_of_mem hmem)
  have hb : s.bytesize = int32 (geo last).bytesize := by rw [hinv.bytesize, hlast]; rfl
  rw [hinv.copiesFrame_iff hi hl, hb, size_t_int32_iff]
  simp [SameSize, hlast]

theorem zero_range : -2 ^ 15 ≤ (0 : ℤ) ∧ (0 : ℤ) < 2 ^ 15 := by decide

/-- Two layers: a frame of four pixels and one of a single pixel. -/
def twoLayers (big : Bool) : FrameGeometry where
  x := 0
  y := 0
  w := if big then 2 else 1
  h := if big then 2 else 1
  bpp := 32
  x_range := zero_range
  y_range := zero_range
  w_range := by cases big <;> decide
  h_range := by cases big <;> decide
  bpp_range := by decide

/-- A filter that was applied to the big layer. -/
def appliedBig : Freeframe Bool Bool where
  bytesize := 16
  instances := update (update (fun _ => none) true (some .fresh)) true
    (some (applied_instance twoLayers true 1))
  applied := [true]

/-- A filter that was then applied to the small layer, too. -/
def appliedBoth : Freeframe Bool Bool where
  bytesize := 4
  instances := update (update appliedBig.instances false (some .fresh)) false
    (some (applied_instance twoLayers false 1))
  applied := [true, false]

theorem reachable_appliedBig : Reachable (system twoLayers) appliedBig :=
  .step (.step (.init rfl) (a := .new_instance true) ⟨rfl, rfl⟩)
    (a := .apply true true 1 true) ⟨true, rfl⟩

theorem reachable_appliedBoth : Reachable (system twoLayers) appliedBoth :=
  .step (.step reachable_appliedBig (a := .new_instance false) ⟨rfl, rfl⟩)
    (a := .apply false false 1 true) ⟨true, rfl⟩

/-- The instance on the big layer copies its frame while that is the only one. -/
theorem freeframe_copies_big :
    CopiesFrame twoLayers appliedBig (applied_instance twoLayers true 1) true :=
  (freeframe_copies_iff reachable_appliedBig (i := true) rfl rfl).mpr
    ⟨true, rfl, rfl, by decide⟩

/-- Once the filter was applied to the small layer, the instance on the big one copies a
quarter of its frame. -/
theorem freeframe_stale :
    Reachable (system twoLayers) appliedBoth ∧
      appliedBoth.instances true = some (applied_instance twoLayers true 1) ∧
      ¬ CopiesFrame twoLayers appliedBoth (applied_instance twoLayers true 1) true := by
  refine ⟨reachable_appliedBoth, rfl, fun h => ?_⟩
  have hlen := ((inv_reachable reachable_appliedBoth).copiesFrame_iff (i := true) rfl rfl).mp h
  exact absurd hlen (by decide)

end Freeframe

end FreeJ
