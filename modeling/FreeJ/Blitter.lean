import FreeJ.MachineInt

/-!
# The Crop of a Layer

`geometry.h`, `blitter.h` and `Blitter::crop` of `blitter.cpp`. A layer is put on the screen
at its position `x,y`; `crop` works out how many rows and how many pixels of each row are
inside the screen, where they start in the layer and in the screen, and how much to stride
over between two rows. Integers are stored into fields of fixed width (`MachineInt`).

A `return` out of the middle of the function is `Except.error`, carrying the geometry and
the blit as they are by then.

## Main results

* `Blitter.crop_in_spec`, `Blitter.crop_out_spec`: what a crop leaves behind, on a layer that
  is in the screen and on one that is out of it.
* `Blitter.hidden_crop`: after a crop for a linear or past blit `hidden` says whether it
  returned early.
* `Blitter.crop_shows`: when it did not, the counters, strides and offsets describe the
  intersection of the layer with the screen.
-/

namespace FreeJ

/-- `Geometry`: position and size, in the range of their types. -/
structure Geometry where
  /-- x axis position coordinate -/
  x : ℤ
  /-- y axis position coordinate -/
  y : ℤ
  /-- width of frame in pixels -/
  w : ℤ
  /-- height of frame in pixels -/
  h : ℤ
  x_range : -2 ^ 15 ≤ x ∧ x < 2 ^ 15
  y_range : -2 ^ 15 ≤ y ∧ y < 2 ^ 15
  w_range : 0 ≤ w ∧ w < 2 ^ 16
  h_range : 0 ≤ h ∧ h < 2 ^ 16

/-- Store `z` into `Geometry::x`. -/
def Geometry.setX (geo : Geometry) (z : ℤ) : Geometry :=
  { geo with x := int16 z, x_range := int16_range z }

/-- Store `z` into `Geometry::y`. -/
def Geometry.setY (geo : Geometry) (z : ℤ) : Geometry :=
  { geo with y := int16 z, y_range := int16_range z }

/-- `Blit::BlitType` -/
inductive BlitType
  | NONE
  | LINEAR
  | SDL
  | PAST
  deriving DecidableEq, Repr

/-- `SDL_Rect` -/
structure SDL_Rect where
  x : ℤ
  y : ℤ
  w : ℤ
  h : ℤ
  deriving DecidableEq, Repr

/-- `Blit`, its type and what `crop` computes for it. -/
structure Blit where
  type : BlitType
  scr_stride_dx : ℤ
  scr_stride_sx : ℤ
  scr_stride_up : ℤ
  scr_stride : ℤ
  scr_offset : ℤ
  lay_pitch : ℤ
  lay_bytepitch : ℤ
  lay_stride : ℤ
  lay_stride_sx : ℤ
  lay_stride_dx : ℤ
  lay_stride_up : ℤ
  lay_height : ℤ
  lay_offset : ℤ
  sdl_rect : SDL_Rect
  deriving DecidableEq, Repr

/-- `ViewPort`: which one it is, and its geometry. -/
structure ViewPort (V : Type*) where
  this : V
  geo : Geometry

/-- `Layer`, what the crop and the blit read and write of it. -/
structure Layer (V : Type*) where
  /-- the `ViewPort` the layer belongs to -/
  screen : V
  geo : Geometry
  geo_rotozoom : Geometry
  rotating : Bool
  zooming : Bool
  hidden : Bool
  need_crop : Bool
  current_blit : Option Blit

variable {V : Type*}

/-! ### The four edges -/

/-- `crop`, the counters of a linear or past blit before the edges are tested. -/
def Blitter.cropStart (geo : Geometry) (b : Blit) : Blit :=
  { b with
    lay_pitch := geo.w -- how many pixels to copy each row
    lay_height := geo.h -- how many rows we should copy
    scr_stride_up := 0
    scr_stride_sx := 0
    scr_stride_dx := 0
    lay_stride_up := 0
    lay_stride_sx := 0
    lay_stride_dx := 0 }

/-- `crop`, BOTTOM -/
def Blitter.cropBottom (geo scr : Geometry) (b : Blit) : Except (Geometry × Blit) Blit :=
  if geo.y + geo.h > scr.h then
    if geo.y > scr.h then .error (geo.setY (scr.h + 1), b) -- out of screen
    else .ok { b with lay_height := int32 (b.lay_height - ((geo.y + geo.h) - scr.h)) }
  else .ok b

/-- `crop`, LEFT -/
def Blitter.cropLeft (geo : Geometry) (b : Blit) : Except (Geometry × Blit) Blit :=
  if geo.x < 0 then
    if geo.x + geo.w < 0 then .error (geo.setX (-(geo.w + 1)), b) -- out of screen
    else .ok { b with
      lay_stride_sx := int32 (b.lay_stride_sx + -geo.x)
      lay_pitch := int32 (b.lay_pitch - -geo.x) }
  else .ok { b with scr_stride_sx := int32 (b.scr_stride_sx + geo.x) }

/-- `crop`, UP -/
def Blitter.cropUp (geo : Geometry) (b : Blit) : Except (Geometry × Blit) Blit :=
  if geo.y < 0 then
    if geo.y + geo.h < 0 then .error (geo.setY (-(geo.h + 1)), b) -- out of screen
    else .ok { b with
      lay_stride_up := int32 (b.lay_stride_up + -geo.y)
      lay_height := int32 (b.lay_height - -geo.y) }
  else .ok { b with scr_stride_up := int32 (b.scr_stride_up + geo.y) }

/-- `crop`, RIGHT -/
def Blitter.cropRight (geo scr : Geometry) (b : Blit) : Except (Geometry × Blit) Blit :=
  if geo.x + geo.w > scr.w then
    if geo.x > scr.w then .error (geo.setX (scr.w + 1), b) -- out of screen
    else .ok { b with
      lay_pitch := int32 (b.lay_pitch - ((geo.x + geo.w) - scr.w))
      lay_stride_dx := int32 (b.lay_stride_dx + ((geo.x + geo.w) - scr.w)) }
  else .ok { b with scr_stride_dx := int32 (b.scr_stride_dx + (scr.w - (geo.x + geo.w))) }

/-- `crop`, the four edges in the order in which they are tested. -/
def Blitter.cropEdges (geo scr : Geometry) (b : Blit) : Except (Geometry × Blit) Blit := do
  let b ← Blitter.cropBottom geo scr (Blitter.cropStart geo b)
  let b ← Blitter.cropLeft geo b
  let b ← Blitter.cropUp geo b
  Blitter.cropRight geo scr b

/-- `crop`, the sums of the strides and the upper left starting offsets. -/
def Blitter.cropOffsets (geo scr : Geometry) (b : Blit) : Blit :=
  { b with
    lay_stride := int32 (b.lay_stride_dx + b.lay_stride_sx)
    lay_offset := uint32 (b.lay_stride_sx + b.lay_stride_up * geo.w)
    scr_stride := int32 (b.scr_stride_dx + b.scr_stride_sx)
    scr_offset := uint32 (b.scr_stride_sx + b.scr_stride_up * scr.w) }

/-! ### The crop -/

/-- `crop`, the geometry that is cropped: the layer's own, or the one of the rotated or
zoomed surface, shifted up and left to center the rotation. -/
def Blitter.cropGeo (lay : Layer V) : Geometry :=
  if lay.rotating || lay.zooming then
    (lay.geo_rotozoom.setX (lay.geo.x - (lay.geo_rotozoom.w - lay.geo.w).tdiv 2)).setY
      (lay.geo.y - (lay.geo_rotozoom.h - lay.geo.h).tdiv 2)
  else lay.geo

/-- Store into the geometry that `Blitter::geo` points to. -/
def Layer.setGeo (lay : Layer V) (geo : Geometry) : Layer V :=
  if lay.rotating || lay.zooming then { lay with geo_rotozoom := geo } else { lay with geo := geo }

/-- `crop`, calculate bytes per row. -/
def Blitter.cropDone (lay : Layer V) (b : Blit) : Layer V :=
  { lay with
    current_blit := some { b with lay_bytepitch := int32 (b.lay_pitch * 4) }
    need_crop := false }

/-- `Blitter::crop` -/
def Blitter.crop (lay : Layer V) (scr : ViewPort V) : Layer V :=
  match lay.current_blit with
  | none => lay
  | some b =>
    let geo := Blitter.cropGeo lay
    let lay := lay.setGeo geo
    match b.type with
    | .SDL =>
      Blitter.cropDone lay { b with
        sdl_rect := ⟨int16 (-geo.x), int16 (-geo.y), uint16 scr.geo.w, uint16 scr.geo.h⟩ }
    | .LINEAR | .PAST =>
      match Blitter.cropEdges geo scr.geo b with
      | .error (geo, b) => { lay.setGeo geo with hidden := true, current_blit := some b }
      | .ok b =>
        Blitter.cropDone { lay with hidden := false } (Blitter.cropOffsets geo scr.geo b)
    | .NONE => Blitter.cropDone lay b

/-! ### What is computed -/

/-- The layer and the screen have no row or no column in common, as the code tests it: a
layer that touches the screen from outside is still inside. -/
def Geometry.OutOf (geo scr : Geometry) : Prop :=
  geo.y + geo.h > scr.h ∧ geo.y > scr.h ∨ geo.x < 0 ∧ geo.x + geo.w < 0 ∨
    geo.y < 0 ∧ geo.y + geo.h < 0 ∨ geo.x + geo.w > scr.w ∧ geo.x > scr.w

variable {geo scr : Geometry} {b b' : Blit}

/-- BOTTOM cuts off the rows below the screen. -/
theorem Blitter.cropBottom_eq (hin : ¬ (geo.y + geo.h > scr.h ∧ geo.y > scr.h))
    (hh : b.lay_height = geo.h) :
    Blitter.cropBottom geo scr b =
      .ok { b with lay_height := min (geo.y + geo.h) scr.h - geo.y } := by
  have hy := geo.y_range
  have hr := geo.h_range
  have hs := scr.h_range
  simp only [Blitter.cropBottom]
  split_ifs with h1 h2
  · omega
  · rw [int32_eq (by omega) (by omega)]
    congr 2
    omega
  · cases b
    simp only [Except.ok.injEq, Blit.mk.injEq, true_and, and_true] at hh ⊢
    omega

/-- LEFT cuts off the pixels to the left of the screen. -/
theorem Blitter.cropLeft_eq (hin : ¬ (geo.x < 0 ∧ geo.x + geo.w < 0))
    (hp : b.lay_pitch = geo.w) (hl : b.lay_stride_sx = 0) (hs : b.scr_stride_sx = 0) :
    Blitter.cropLeft geo b =
      .ok { b with
        lay_stride_sx := max (-geo.x) 0
        lay_pitch := geo.x + geo.w - max geo.x 0
        scr_stride_sx := max geo.x 0 } := by
  have hx := geo.x_range
  have hw := geo.w_range
  simp only [Blitter.cropLeft]
  split_ifs with h1 h2
  · omega
  · rw [int32_eq (by omega) (by omega), int32_eq (by omega) (by omega)]
    congr 2 <;> omega
  · rw [int32_eq (by omega) (by omega)]
    congr 2 <;> omega

/-- UP cuts off the rows above the screen. -/
theorem Blitter.cropUp_eq (hin : ¬ (geo.y < 0 ∧ geo.y + geo.h < 0))
    (hl : b.lay_stride_up = 0) (hs : b.scr_stride_up = 0)
    (hh : -2 ^ 17 ≤ b.lay_height ∧ b.lay_height ≤ 2 ^ 17) :
    Blitter.cropUp geo b =
      .ok { b with
        lay_stride_up := max (-geo.y) 0
        lay_height := b.lay_height + geo.y - max geo.y 0
        scr_stride_up := max geo.y 0 } := by
  have hy := geo.y_range
  simp only [Blitter.cropUp]
  split_ifs with h1 h2
  · omega
  · rw [int32_eq (by omega) (by omega), int32_eq (by omega) (by omega)]
    congr 2 <;> omega
  · rw [int32_eq (by omega) (by omega)]
    congr 2 <;> omega

/-- RIGHT cuts off the pixels to the right of the screen. -/
theorem Blitter.cropRight_eq (hin : ¬ (geo.x + geo.w > scr.w ∧ geo.x > scr.w))
    (hl : b.lay_stride_dx = 0) (hs : b.scr_stride_dx = 0)
    (hp : b.lay_pitch = geo.x + geo.w - max geo.x 0) :
    Blitter.cropRight geo scr b =
      .ok { b with
        lay_pitch := min (geo.x + geo.w) scr.w - max geo.x 0
        lay_stride_dx := max (geo.x + geo.w - scr.w) 0
        scr_stride_dx := max (scr.w - (geo.x + geo.w)) 0 } := by
  have hx := geo.x_range
  have hw := geo.w_range
  have hsw := scr.w_range
  simp only [Blitter.cropRight]
  split_ifs with h1 h2
  · omega
  · rw [int32_eq (by omega) (by omega), int32_eq (by omega) (by omega)]
    congr 2 <;> omega
  · rw [int32_eq (by omega) (by omega)]
    congr 2 <;> omega

/-- What is left of the edges once BOTTOM and LEFT are passed. -/
theorem Blitter.cropEdges_past_left (hbottom : ¬ (geo.y + geo.h > scr.h ∧ geo.y > scr.h))
    (hleft : ¬ (geo.x < 0 ∧ geo.x + geo.w < 0)) :
    Blitter.cropEdges geo scr b =
      (Blitter.cropUp geo { Blitter.cropStart geo b with
        lay_height := min (geo.y + geo.h) scr.h - geo.y
        lay_stride_sx := max (-geo.x) 0
        lay_pitch := geo.x + geo.w - max geo.x 0
        scr_stride_sx := max geo.x 0 }).bind (Blitter.cropRight geo scr) := by
  simp only [Blitter.cropEdges]
  rw [Blitter.cropBottom_eq hbottom rfl]
  simp only [bind, Except.bind]
  rw [Blitter.cropLeft_eq hleft rfl rfl rfl]

/-- What is left of the edges once UP is passed, too. -/
theorem Blitter.cropEdges_past_up (hbottom : ¬ (geo.y + geo.h > scr.h ∧ geo.y > scr.h))
    (hleft : ¬ (geo.x < 0 ∧ geo.x + geo.w < 0)) (hup : ¬ (geo.y < 0 ∧ geo.y + geo.h < 0)) :
    Blitter.cropEdges geo scr b =
      Blitter.cropRight geo scr { Blitter.cropStart geo b with
        lay_height := min (geo.y + geo.h) scr.h - max geo.y 0
        lay_stride_sx := max (-geo.x) 0
        lay_pitch := geo.x + geo.w - max geo.x 0
        scr_stride_sx := max geo.x 0
        lay_stride_up := max (-geo.y) 0
        scr_stride_up := max geo.y 0 } := by
  have hy := geo.y_range
  have hh := geo.h_range
  have hsh := scr.h_range
  rw [Blitter.cropEdges_past_left hbottom hleft,
    Blitter.cropUp_eq hup rfl rfl (by dsimp only; omega)]
  simp [Except.bind]

/-- **The intersection.** A layer that is not out of the screen passes all four edges, and
what is left of it is its intersection with the screen. -/
theorem Blitter.cropEdges_eq (hin : ¬ geo.OutOf scr) :
    Blitter.cropEdges geo scr b =
      .ok { b with
        lay_pitch := min (geo.x + geo.w) scr.w - max geo.x 0
        lay_height := min (geo.y + geo.h) scr.h - max geo.y 0
        scr_stride_up := max geo.y 0
        scr_stride_sx := max geo.x 0
        scr_stride_dx := max (scr.w - (geo.x + geo.w)) 0
        lay_stride_up := max (-geo.y) 0
        lay_stride_sx := max (-geo.x) 0
        lay_stride_dx := max (geo.x + geo.w - scr.w) 0 } := by
  simp only [Geometry.OutOf, not_or] at hin
  obtain ⟨hbottom, hleft, hup, hright⟩ := hin
  rw [Blitter.cropEdges_past_up hbottom hleft hup, Blitter.cropRight_eq hright rfl rfl rfl]
  simp [Blitter.cropStart]

/-- A layer that is out of the screen makes `crop` return early. -/
theorem Blitter.cropEdges_error (hout : geo.OutOf scr) :
    ∃ r, Blitter.cropEdges geo scr b = .error r := by
  unfold Blitter.cropEdges Blitter.cropBottom Blitter.cropLeft Blitter.cropUp Blitter.cropRight
  simp only [Geometry.OutOf] at hout
  simp only [bind, Except.bind]
  split_ifs <;> first | exact ⟨_, rfl⟩ | omega

/-- The counters, strides and offsets of a blit describe the intersection of a layer with
the screen: how long its rows are and how many there are, that a row and what is strided
over make up a whole row of the layer and of the screen, and where the first pixel is. -/
structure Blit.Shows (b : Blit) (geo scr : Geometry) : Prop where
  pitch : b.lay_pitch = min (geo.x + geo.w) scr.w - max geo.x 0
  bytepitch : b.lay_bytepitch = b.lay_pitch * 4
  height : b.lay_height = min (geo.y + geo.h) scr.h - max geo.y 0
  lay_row : b.lay_stride + b.lay_pitch = geo.w
  scr_row : b.scr_stride + b.lay_pitch = scr.w
  lay_offset : b.lay_offset = max (-geo.x) 0 + max (-geo.y) 0 * geo.w
  scr_offset : b.scr_offset = max geo.x 0 + max geo.y 0 * scr.w

/-- An offset made of a column and a number of rows fits its field. -/
theorem offset_range {s u w : ℤ} (hs : 0 ≤ s ∧ s ≤ 2 ^ 15) (hu : 0 ≤ u ∧ u ≤ 2 ^ 15)
    (hw : 0 ≤ w ∧ w < 2 ^ 16) : 0 ≤ s + u * w ∧ s + u * w < 2 ^ 32 := by
  have h0 : 0 ≤ u * w := Int.mul_nonneg hu.1 hw.1
  have h1 : u * w ≤ 2 ^ 15 * 2 ^ 16 :=
    Int.mul_le_mul hu.2 (by omega) hw.1 (by decide)
  omega

/-- Edges, offsets and bytes per row together describe the intersection. -/
theorem Blitter.cropOffsets_shows (hin : ¬ geo.OutOf scr)
    (hb : Blitter.cropEdges geo scr b = .ok b') :
    Blit.Shows { Blitter.cropOffsets geo scr b' with lay_bytepitch := int32 (b'.lay_pitch * 4) }
      geo scr := by
  have hx := geo.x_range
  have hy := geo.y_range
  have hw := geo.w_range
  have hsw := scr.w_range
  rw [Blitter.cropEdges_eq hin, Except.ok.injEq] at hb
  subst hb
  refine ⟨rfl, ?_, rfl, ?_, ?_, ?_, ?_⟩
  · exact int32_eq (by dsimp only; omega) (by dsimp only; omega)
  · simp only [Blitter.cropOffsets]
    rw [int32_eq (by omega) (by omega)]
    omega
  · simp only [Blitter.cropOffsets]
    rw [int32_eq (by omega) (by omega)]
    omega
  · have hr := offset_range (s := max (-geo.x) 0) (u := max (-geo.y) 0) (by omega) (by omega) hw
    exact uint32_eq hr.1 hr.2
  · have hr := offset_range (s := max geo.x 0) (u := max geo.y 0) (by omega) (by omega) hsw
    exact uint32_eq hr.1 hr.2

/-! ### Returning early -/

/-- What an edge does to a blit of type `ty`: it keeps the type, and when it returns early
the geometry has the size it had and is still out of the screen. -/
def Blitter.Edge (geo scr : Geometry) (ty : BlitType) : Except (Geometry × Blit) Blit → Prop
  | .ok b => b.type = ty
  | .error (geo', b) => b.type = ty ∧ geo'.OutOf scr ∧ geo'.w = geo.w ∧ geo'.h = geo.h

/-- BOTTOM puts a layer below the screen right below it. -/
theorem Blitter.cropBottom_edge : Edge geo scr b.type (Blitter.cropBottom geo scr b) := by
  have hy := geo.y_range
  have hh := geo.h_range
  have hs := scr.h_range
  simp only [Blitter.cropBottom]
  split_ifs with h1 h2
  · refine ⟨rfl, Or.inl ?_, rfl, rfl⟩
    simp only [Geometry.setY]
    rw [int16_eq (by omega) (by omega)]
    omega
  · rfl
  · rfl

/-- LEFT puts a layer to the left of the screen right beside it. -/
theorem Blitter.cropLeft_edge : Edge geo scr b.type (Blitter.cropLeft geo b) := by
  have hx := geo.x_range
  have hw := geo.w_range
  simp only [Blitter.cropLeft]
  split_ifs with h1 h2
  · refine ⟨rfl, Or.inr (Or.inl ?_), rfl, rfl⟩
    simp only [Geometry.setX]
    rw [int16_eq (by omega) (by omega)]
    omega
  · rfl
  · rfl

/-- UP puts a layer above the screen right above it. -/
theorem Blitter.cropUp_edge : Edge geo scr b.type (Blitter.cropUp geo b) := by
  have hy := geo.y_range
  have hh := geo.h_range
  simp only [Blitter.cropUp]
  split_ifs with h1 h2
  · refine ⟨rfl, Or.inr (Or.inr (Or.inl ?_)), rfl, rfl⟩
    simp only [Geometry.setY]
    rw [int16_eq (by omega) (by omega)]
    omega
  · rfl
  · rfl

/-- RIGHT puts a layer to the right of the screen right beside it. -/
theorem Blitter.cropRight_edge : Edge geo scr b.type (Blitter.cropRight geo scr b) := by
  have hx := geo.x_range
  have hw := geo.w_range
  have hs := scr.w_range
  simp only [Blitter.cropRight]
  split_ifs with h1 h2
  · refine ⟨rfl, Or.inr (Or.inr (Or.inr ?_)), rfl, rfl⟩
    simp only [Geometry.setX]
    rw [int16_eq (by omega) (by omega)]
    omega
  · rfl
  · rfl

/-- Edges one after the other. -/
theorem Blitter.Edge.bind {ty : BlitType} {x : Except (Geometry × Blit) Blit}
    {f : Blit → Except (Geometry × Blit) Blit} (hx : Edge geo scr ty x)
    (hf : ∀ b, Edge geo scr b.type (f b)) : Edge geo scr ty (x >>= f) := by
  cases x with
  | error r => exact hx
  | ok b =>
      have hty : b.type = ty := hx
      exact hty ▸ hf b

/-- All four edges. -/
theorem Blitter.cropEdges_edge (geo scr : Geometry) (b : Blit) :
    Edge geo scr b.type (Blitter.cropEdges geo scr b) :=
  Edge.bind (Blitter.cropBottom_edge (b := Blitter.cropStart geo b)) fun _ =>
    Edge.bind Blitter.cropLeft_edge fun _ =>
      Edge.bind Blitter.cropUp_edge fun _ => Blitter.cropRight_edge

/-- A linear or past blit, which goes row by row. -/
def Blit.Rows (b : Blit) : Prop := b.type = .LINEAR ∨ b.type = .PAST

/-- The blit that `crop` computes: cropping it once more computes it again. -/
def Blit.Cropped (b : Blit) (geo scr : Geometry) : Prop :=
  ∃ e, Blitter.cropEdges geo scr b = .ok e ∧
    b = { Blitter.cropOffsets geo scr e with lay_bytepitch := int32 (e.lay_pitch * 4) }

/-- A cropped blit describes the intersection of layer and screen. -/
theorem Blit.Cropped.shows (hb : b.Cropped geo scr) (hin : ¬ geo.OutOf scr) :
    b.Shows geo scr := by
  obtain ⟨e, he, hbe⟩ := hb
  rw [hbe]
  exact Blitter.cropOffsets_shows hin he

/-- A crop that does not return early makes the blit a cropped one. -/
theorem Blitter.exists_cropped (b : Blit) (hin : ¬ geo.OutOf scr) :
    ∃ e, Blitter.cropEdges geo scr b = .ok e ∧ e.type = b.type ∧
      Blit.Cropped { Blitter.cropOffsets geo scr e with
        lay_bytepitch := int32 (e.lay_pitch * 4) } geo scr :=
  ⟨_, Blitter.cropEdges_eq hin, rfl, _, Blitter.cropEdges_eq hin, rfl⟩

/-! ### The crop of a layer -/

variable {lay : Layer V} {scr : ViewPort V}

/-- The whole of what `crop` does to a layer that is not out of the screen. -/
theorem Blitter.crop_in (hb : lay.current_blit = some b) (hty : b.Rows)
    (hin : ¬ (Blitter.cropGeo lay).OutOf scr.geo) :
    ∃ b', b'.type = b.type ∧ b'.Cropped (Blitter.cropGeo lay) scr.geo ∧
      Blitter.crop lay scr = { lay.setGeo (Blitter.cropGeo lay) with
        hidden := false, current_blit := some b', need_crop := false } := by
  obtain ⟨e, he, hety, hcropped⟩ := Blitter.exists_cropped b hin
  refine ⟨_, ?_, hcropped, ?_⟩
  · exact hety
  · simp only [Blitter.crop]
    rw [hb]
    rcases hty with hty | hty <;> simp only [hty, he] <;> rfl

/-- The whole of what `crop` does for a blit that does not go row by row. -/
theorem Blitter.crop_other (scr : ViewPort V) (hb : lay.current_blit = some b) (hty : ¬ b.Rows) :
    ∃ b', b'.type = b.type ∧
      Blitter.crop lay scr = { lay.setGeo (Blitter.cropGeo lay) with
        current_blit := some b', need_crop := false } := by
  simp only [Blitter.crop]
  rw [hb]
  cases hty' : b.type with
  | NONE =>
      refine ⟨{ b with lay_bytepitch := int32 (b.lay_pitch * 4) }, hty', ?_⟩
      simp only [hty', Blitter.cropDone]
  | LINEAR => exact absurd (Or.inl hty') hty
  | SDL =>
      refine ⟨{ b with
        sdl_rect := ⟨int16 (-(Blitter.cropGeo lay).x), int16 (-(Blitter.cropGeo lay).y),
          uint16 scr.geo.w, uint16 scr.geo.h⟩
        lay_bytepitch := int32 (b.lay_pitch * 4) }, hty', ?_⟩
      simp only [hty', Blitter.cropDone]
  | PAST => exact absurd (Or.inr hty') hty

/-- The whole of what `crop` does to a layer that is out of the screen. -/
theorem Blitter.crop_out (hb : lay.current_blit = some b) (hty : b.Rows)
    (hout : (Blitter.cropGeo lay).OutOf scr.geo) :
    ∃ geo' b', b'.type = b.type ∧ geo'.OutOf scr.geo ∧ geo'.w = (Blitter.cropGeo lay).w ∧
      geo'.h = (Blitter.cropGeo lay).h ∧
      Blitter.crop lay scr = { (lay.setGeo (Blitter.cropGeo lay)).setGeo geo' with
        hidden := true, current_blit := some b' } := by
  obtain ⟨⟨geo', b'⟩, he⟩ := Blitter.cropEdges_error (b := b) hout
  have hedge := Blitter.cropEdges_edge (Blitter.cropGeo lay) scr.geo b
  rw [he] at hedge
  obtain ⟨hb', hout', hw, hh⟩ := hedge
  refine ⟨geo', b', hb', hout', hw, hh, ?_⟩
  simp only [Blitter.crop]
  rw [hb]
  rcases hty with hty | hty <;> simp only [hty, he]

/-- What a crop leaves of a layer: its screen, whether it is rotated or zoomed, and the sizes
of its two geometries. -/
structure Layer.SameFrame (lay lay' : Layer V) : Prop where
  screen : lay'.screen = lay.screen
  rotating : lay'.rotating = lay.rotating
  zooming : lay'.zooming = lay.zooming
  geo_w : lay'.geo.w = lay.geo.w
  geo_h : lay'.geo.h = lay.geo.h
  rotozoom_w : lay'.geo_rotozoom.w = lay.geo_rotozoom.w
  rotozoom_h : lay'.geo_rotozoom.h = lay.geo_rotozoom.h

/-- The frame of a layer is the same after a geometry of the size of the cropped one is stored
into it. -/
theorem Layer.setGeo_sameFrame (hw : geo.w = (Blitter.cropGeo lay).w)
    (hh : geo.h = (Blitter.cropGeo lay).h) : lay.SameFrame (lay.setGeo geo) := by
  simp only [Blitter.cropGeo, Layer.setGeo] at hw hh ⊢
  split at hw <;> rename_i hr
  · rw [if_pos hr] at hh ⊢
    exact ⟨rfl, rfl, rfl, rfl, rfl, hw, hh⟩
  · rw [if_neg hr] at hh ⊢
    exact ⟨rfl, rfl, rfl, hw, hh, rfl, rfl⟩

theorem Layer.setGeo_need_crop (lay : Layer V) (geo : Geometry) :
    (lay.setGeo geo).need_crop = lay.need_crop := by
  unfold Layer.setGeo
  split <;> rfl

/-- The geometry that is cropped has been stored. -/
theorem Blitter.cropGeo_setGeo (lay : Layer V) :
    Blitter.cropGeo (lay.setGeo (Blitter.cropGeo lay)) = Blitter.cropGeo lay := by
  unfold Layer.setGeo
  split <;> rename_i hr
  · simp only [Blitter.cropGeo, hr, if_true]
    rfl
  · simp only [Blitter.cropGeo, hr]
    simp

/-- Storing a geometry of the same size: what is cropped next is that geometry, or what was
cropped before when a rotation is centered again. -/
theorem Blitter.cropGeo_setGeo_eq (hw : geo.w = (Blitter.cropGeo lay).w)
    (hh : geo.h = (Blitter.cropGeo lay).h) :
    Blitter.cropGeo (lay.setGeo geo) = geo ∨
      Blitter.cropGeo (lay.setGeo geo) = Blitter.cropGeo lay := by
  by_cases hr : (lay.rotating || lay.zooming) = true
  · right
    cases geo
    simp only [Blitter.cropGeo, Layer.setGeo, if_pos hr] at hw hh ⊢
    simp only [Geometry.setX, Geometry.setY] at hw hh ⊢
    subst hw hh
    rfl
  · left
    simp [Blitter.cropGeo, Layer.setGeo, hr]

/-- A crop changes positions, flags and the blit. -/
theorem Blitter.crop_sameFrame (lay : Layer V) (scr : ViewPort V) :
    lay.SameFrame (Blitter.crop lay scr) := by
  have hself : lay.SameFrame (lay.setGeo (Blitter.cropGeo lay)) :=
    Layer.setGeo_sameFrame rfl rfl
  cases hb : lay.current_blit with
  | none =>
      simp only [Blitter.crop]
      rw [hb]
      exact ⟨rfl, rfl, rfl, rfl, rfl, rfl, rfl⟩
  | some b =>
      by_cases hty : b.Rows
      · by_cases hout : (Blitter.cropGeo lay).OutOf scr.geo
        · obtain ⟨geo', b', -, -, hw, hh, heq⟩ := Blitter.crop_out hb hty hout
          rw [← Blitter.cropGeo_setGeo lay] at hw hh
          have hmoved := Layer.setGeo_sameFrame hw hh
          rw [heq]
          exact ⟨hmoved.screen.trans hself.screen, hmoved.rotating.trans hself.rotating,
            hmoved.zooming.trans hself.zooming, hmoved.geo_w.trans hself.geo_w,
            hmoved.geo_h.trans hself.geo_h, hmoved.rotozoom_w.trans hself.rotozoom_w,
            hmoved.rotozoom_h.trans hself.rotozoom_h⟩
        · obtain ⟨b', -, -, heq⟩ := Blitter.crop_in hb hty hout
          rw [heq]
          exact ⟨hself.screen, hself.rotating, hself.zooming, hself.geo_w, hself.geo_h,
            hself.rotozoom_w, hself.rotozoom_h⟩
      · obtain ⟨b', -, heq⟩ := Blitter.crop_other scr hb hty
        rw [heq]
        exact ⟨hself.screen, hself.rotating, hself.zooming, hself.geo_w, hself.geo_h,
          hself.rotozoom_w, hself.rotozoom_h⟩

/-- **A layer out of the screen** stays out of it and stays in need of a crop, and its blit
keeps what the crop had not come to. -/
theorem Blitter.crop_out_spec (hb : lay.current_blit = some b) (hty : b.Rows)
    (hout : (Blitter.cropGeo lay).OutOf scr.geo) :
    ∃ b', (Blitter.crop lay scr).current_blit = some b' ∧ b'.type = b.type ∧
      (Blitter.crop lay scr).hidden = true ∧
      (Blitter.crop lay scr).need_crop = lay.need_crop ∧
      (Blitter.cropGeo (Blitter.crop lay scr)).OutOf scr.geo := by
  obtain ⟨geo', b', hbt, hgeo, hw, hh, heq⟩ := Blitter.crop_out hb hty hout
  rw [heq]
  refine ⟨b', rfl, hbt, rfl, ?_, ?_⟩
  · exact (Layer.setGeo_need_crop ..).trans (Layer.setGeo_need_crop ..)
  · rw [← Blitter.cropGeo_setGeo lay] at hw hh
    rcases Blitter.cropGeo_setGeo_eq hw hh with h | h
    · exact h.symm ▸ hgeo
    · rw [Blitter.cropGeo_setGeo] at h
      exact h.symm ▸ hout

/-- **A layer that is not out of the screen** needs no further crop, and its blit is the one
that the crop computes. -/
theorem Blitter.crop_in_spec (hb : lay.current_blit = some b) (hty : b.Rows)
    (hin : ¬ (Blitter.cropGeo lay).OutOf scr.geo) :
    ∃ b', (Blitter.crop lay scr).current_blit = some b' ∧ b'.type = b.type ∧
      (Blitter.crop lay scr).hidden = false ∧ (Blitter.crop lay scr).need_crop = false ∧
      Blitter.cropGeo (Blitter.crop lay scr) = Blitter.cropGeo lay ∧
      b'.Cropped (Blitter.cropGeo lay) scr.geo := by
  obtain ⟨b', hbt, hcropped, heq⟩ := Blitter.crop_in hb hty hin
  rw [heq]
  exact ⟨b', rfl, hbt, rfl, rfl, Blitter.cropGeo_setGeo lay, hcropped⟩

/-- A crop keeps the type of the blit. -/
theorem Blitter.crop_type (lay : Layer V) (scr : ViewPort V) :
    (Blitter.crop lay scr).current_blit.map Blit.type = lay.current_blit.map Blit.type := by
  cases hb : lay.current_blit with
  | none =>
      simp only [Blitter.crop]
      rw [hb]
      simp [hb]
  | some b =>
      by_cases hty : b.Rows
      · by_cases hout : (Blitter.cropGeo lay).OutOf scr.geo
        · obtain ⟨b', hb', hbt, -⟩ := Blitter.crop_out_spec hb hty hout
          simp [hb', hbt]
        · obtain ⟨b', hb', hbt, -⟩ := Blitter.crop_in_spec hb hty hout
          simp [hb', hbt]
      · obtain ⟨b', hbt, heq⟩ := Blitter.crop_other scr hb hty
        simp [heq, hbt]

/-- Cropping a cropped blit changes nothing in it. -/
theorem Blitter.crop_cropped (hb : lay.current_blit = some b) (hty : b.Rows)
    (hc : b.Cropped (Blitter.cropGeo lay) scr.geo) :
    (Blitter.crop lay scr).current_blit = some b := by
  obtain ⟨e, he, hbe⟩ := hc
  simp only [Blitter.crop]
  rw [hb]
  rcases hty with hty | hty <;> simp only [hty, he] <;> exact congrArg some hbe.symm

/-- After the crop for a linear or past blit `hidden` says whether `crop` returned early,
which it does exactly on a layer out of the screen. -/
theorem Blitter.hidden_crop (hb : lay.current_blit = some b)
    (hty : b.type = .LINEAR ∨ b.type = .PAST) :
    (Blitter.crop lay scr).hidden = true ↔ (Blitter.cropGeo lay).OutOf scr.geo := by
  by_cases hout : (Blitter.cropGeo lay).OutOf scr.geo
  · obtain ⟨-, -, -, hhidden, -, -⟩ := Blitter.crop_out_spec hb hty hout
    simp [hhidden, hout]
  · obtain ⟨-, -, -, hhidden, -, -, -⟩ := Blitter.crop_in_spec hb hty hout
    simp [hhidden, hout]

/-- **What `crop` is for.** For a linear or past blit of a layer that is not out of the
screen, it computes the intersection of the two, and the layer needs no further crop. -/
theorem Blitter.crop_shows (hb : lay.current_blit = some b)
    (hty : b.type = .LINEAR ∨ b.type = .PAST)
    (hin : ¬ (Blitter.cropGeo lay).OutOf scr.geo) :
    ∃ b', (Blitter.crop lay scr).current_blit = some b' ∧
      b'.Shows (Blitter.cropGeo lay) scr.geo ∧ (Blitter.crop lay scr).need_crop = false := by
  obtain ⟨b', hb', -, -, hneed, -, hcropped⟩ := Blitter.crop_in_spec hb hty hin
  exact ⟨b', hb', hcropped.shows hin, hneed⟩

end FreeJ
