import FreeJ.SoftScreen
import FreeJ.LayerBlits
import FreeJ.Transition

/-!
# The SDL Screen

`SdlScreen::blit` of `sdl_screen.cpp` and `_set_zoom`, `_set_rotate` of `layer.cpp`. A
layer that is rotated or zoomed is drawn to a surface of its own in every blit, and the
size of that surface is stored into `geo_rotozoom` there and nowhere else; `set_blit` and
`handle_resize` crop the layer with whatever size is in it. How large the surfaces are is up
to the functions of `SDL_gfx`, which is a parameter. Angles and zooms are of a type `D` in
which the code compares with zero and with one.

## Main results

* `SdlLayer.kept_crop`: when a crop leaves the layer with a blit that is up to date.
* `sdl_blit_up_to_date`: in runs that crop a layer only with the size of its surface, the
  row loop runs on the blit that `crop` computes from the surface that it reads.
* `stale_crop`: in other runs it reads outside of the surface.
-/

namespace FreeJ

open Transition

/-- `Geometry::init` -/
def Geometry.init (geo : Geometry) (nw nh : ℤ) : Geometry :=
  { geo with
    w := uint16 nw
    h := uint16 nh
    w_range := uint16_range nw
    h_range := uint16_range nh }

/-- The width and the height of the surfaces that are made, from those of the picture, and
the angle and the zoom, or the two zooms. -/
structure SDL_gfx (D : Type*) where
  rotozoomSurface : ℤ → ℤ → D → D → ℕ × ℕ
  zoomSurface : ℤ → ℤ → D → D → ℕ × ℕ

/-- A layer of an `SdlScreen`. -/
structure SdlLayer (N V D : Type*) extends BlitLayer N V where
  rotate : D
  zoom_x : D
  zoom_y : D

/-- An `SdlScreen` and one of its layers. -/
structure SdlState (N V D : Type*) where
  scr : Display V
  layer : SdlLayer N V D

/-- What is done to the layer and to the screen. -/
inductive SdlOp (N D : Type*)
  | _set_position (x y : ℤ)
  | _set_zoom (x y : D)
  | _set_rotate (angle : D)
  | set_blit (bname : N)
  | resize (w h : ℤ)
  | handle_resize
  | blit

variable {N V D : Type*}

/-- `SdlScreen::resize` -/
def SdlScreen.resize (geo : Geometry) (resize_w resize_h : ℤ) : Geometry :=
  geo.init resize_w resize_h

/-- `Layer::_set_zoom` -/
def SdlLayer._set_zoom [DecidableEq D] [One D] (l : SdlLayer N V D) (x y : D) : SdlLayer N V D :=
  if x = 1 ∧ y = 1 then
    { l with lay := { l.lay with zooming := false, need_crop := true }, zoom_x := 1, zoom_y := 1 }
  else
    { l with lay := { l.lay with zooming := true, need_crop := true }, zoom_x := x, zoom_y := y }

/-- `Layer::_set_rotate` -/
def SdlLayer._set_rotate [DecidableEq D] [Zero D] (l : SdlLayer N V D) (angle : D) :
    SdlLayer N V D :=
  if angle = 0 then
    { l with lay := { l.lay with rotating := false, need_crop := true }, rotate := 0 }
  else { l with lay := { l.lay with rotating := true, need_crop := true }, rotate := angle }

/-- `blit`, the size of the rotated or zoomed surface that is made. -/
def SdlLayer.rotozoom (gfx : SDL_gfx D) (src : SdlLayer N V D) : Option (ℕ × ℕ) :=
  if src.lay.rotating then
    some (gfx.rotozoomSurface src.lay.geo.w src.lay.geo.h src.rotate src.zoom_x)
  else if src.lay.zooming then
    some (gfx.zoomSurface src.lay.geo.w src.lay.geo.h src.zoom_x src.zoom_y)
  else none

/-- `blit`, the size of what `offset` points to. -/
def SdlLayer.surface (gfx : SDL_gfx D) (src : SdlLayer N V D) : ℤ × ℤ :=
  match src.rotozoom gfx with
  | some size => (size.1, size.2)
  | none => (src.lay.geo.w, src.lay.geo.h)

/-- `blit`, `geo_rotozoom` after the surface is made. -/
def SdlLayer.prepare (gfx : SDL_gfx D) (src : SdlLayer N V D) : SdlLayer N V D :=
  match src.rotozoom gfx with
  | some size =>
    { src with lay := { src.lay with
      geo_rotozoom := src.lay.geo_rotozoom.init size.1 size.2 } }
  | none => src

/-- `blit`, crop a layer that needs it. -/
def SdlLayer.cropNeeded [DecidableEq N] (src : SdlLayer N V D) (scr : ViewPort V) :
    SdlLayer N V D :=
  if src.lay.need_crop then { src with toBlitLayer := src.crop scr } else src

/-- `SdlScreen::blit`: the layer afterwards and the calls of a linear blit function, whose
loop is the one of `SoftScreen::blit`; `none` when a null pointer is followed. -/
def SdlScreen.blit [DecidableEq N] (gfx : SDL_gfx D) (scr : ViewPort V) (src : SdlLayer N V D) :
    Option (SdlLayer N V D × List RowCall) :=
  let src := (src.prepare gfx).cropNeeded scr
  match src.lay.current_blit with
  | none => none
  | some b => some (src,
      if b.type = .LINEAR then
        SoftScreen.rowLoop b (int16 b.lay_height).toNat b.lay_offset b.scr_offset
      else [])

section Steps

variable [DecidableEq N] [DecidableEq D] [Zero D] [One D]

/-- What the code does in one step; `none` when it follows a null pointer. -/
def SdlOp.exec (gfx : SDL_gfx D) (s : SdlState N V D) : SdlOp N D → Option (SdlState N V D)
  | ._set_position x y =>
    some { s with layer := { s.layer with lay := s.layer.lay._set_position x y } }
  | ._set_zoom x y => some { s with layer := s.layer._set_zoom x y }
  | ._set_rotate angle => some { s with layer := s.layer._set_rotate angle }
  | .set_blit bname =>
    some { s with layer := { s.layer with
      toBlitLayer := (s.layer.set_blit s.scr.toViewPort bname).2 } }
  | .resize w h =>
    some { s with scr := { s.scr with resize_w := w, resize_h := h, resizing := true } }
  | .handle_resize =>
    let scr := s.scr.handle_resize SdlScreen.resize
    some ⟨scr, { s.layer with toBlitLayer := s.layer.crop scr.toViewPort }⟩
  | .blit =>
    (SdlScreen.blit gfx s.scr.toViewPort s.layer).map fun r => { s with layer := r.1 }

/-- Any steps on a layer that has a blit, whatever is in it, and needs a crop. -/
def sdlSystem (N V : Type*) {D : Type*} [DecidableEq N] [DecidableEq D] [Zero D] [One D]
    (gfx : SDL_gfx D) : System (SdlState N V D) (SdlOp N D) :=
  System.ofFun (fun s => s.layer.lay.need_crop = true ∧ s.layer.lay.current_blit.isSome)
    (SdlOp.exec gfx)

end Steps

/-! ### The size of the surface -/

/-- `geo_rotozoom` has the size of the surface that the next blit makes. -/
def SdlLayer.Sized (gfx : SDL_gfx D) (l : SdlLayer N V D) : Prop :=
  ∀ size, l.rotozoom gfx = some size →
    l.lay.geo_rotozoom.w = uint16 size.1 ∧ l.lay.geo_rotozoom.h = uint16 size.2

/-- The flag `need_crop` is kept: when a layer with a linear blit needs no crop, its
`geo_rotozoom` has the size of its surface, and the blit is cropped unless the layer is out
of the screen. -/
def SdlLayer.Kept (gfx : SDL_gfx D) (scr : ViewPort V) (l : SdlLayer N V D) : Prop :=
  ∀ b, l.lay.current_blit = some b → b.type = .LINEAR → l.lay.need_crop = false →
    l.Sized gfx ∧ (¬ (Blitter.cropGeo l.lay).OutOf scr.geo →
      b.Cropped (Blitter.cropGeo l.lay) scr.geo)

/-- The layer is cropped for a linear blit only with the size of its surface, or else is found
out of the screen with the size that is used. -/
def SdlOp.Keeps (gfx : SDL_gfx D) (s : SdlState N V D) : SdlOp N D → Prop
  | .set_blit bname => ∀ b, s.layer.blitlist bname = some b → b.type = .LINEAR →
    s.layer.Sized gfx ∨ (Blitter.cropGeo s.layer.lay).OutOf s.scr.geo
  | .handle_resize => ∀ b, s.layer.lay.current_blit = some b → b.type = .LINEAR →
    s.layer.Sized gfx ∨
      (Blitter.cropGeo s.layer.lay).OutOf (s.scr.handle_resize SdlScreen.resize).geo
  | _ => True

variable {gfx : SDL_gfx D} {l : SdlLayer N V D} {scr : ViewPort V} {b : Blit}

/-- A layer that needs a crop has its flag kept. -/
theorem SdlLayer.kept_of_need_crop (h : l.lay.need_crop = true) : l.Kept gfx scr :=
  fun _ _ _ hn => absurd (h.symm.trans hn) Bool.noConfusion

/-- Making the surface does not change what it is made from. -/
theorem SdlLayer.rotozoom_prepare (gfx : SDL_gfx D) (l : SdlLayer N V D) :
    (l.prepare gfx).rotozoom gfx = l.rotozoom gfx := by
  simp only [SdlLayer.prepare]
  split <;> rfl

/-- After `blit` has made the surface, `geo_rotozoom` has its size. -/
theorem SdlLayer.sized_prepare (gfx : SDL_gfx D) (l : SdlLayer N V D) :
    (l.prepare gfx).Sized gfx := by
  intro size hsize
  rw [SdlLayer.rotozoom_prepare] at hsize
  simp only [SdlLayer.prepare, hsize]
  exact ⟨rfl, rfl⟩

/-- A layer that has the size of its surface is not changed when the surface is made. -/
theorem SdlLayer.Sized.prepare (h : l.Sized gfx) : l.prepare gfx = l := by
  simp only [SdlLayer.prepare]
  cases hsize : l.rotozoom gfx with
  | none => rfl
  | some size =>
      have hgeo : l.lay.geo_rotozoom.init size.1 size.2 = l.lay.geo_rotozoom := by
        obtain ⟨hw, hh⟩ := h size hsize
        simp only [Geometry.init, ← hw, ← hh]
      simp only [hgeo]

/-- What is read has the size of the geometry that is cropped, up to the width of its
fields. -/
theorem SdlLayer.cropGeo_prepare (gfx : SDL_gfx D) (l : SdlLayer N V D) :
    (0 ≤ (l.surface gfx).1 ∧ (Blitter.cropGeo (l.prepare gfx).lay).w ≤ (l.surface gfx).1) ∧
      0 ≤ (l.surface gfx).2 ∧ (Blitter.cropGeo (l.prepare gfx).lay).h ≤ (l.surface gfx).2 := by
  by_cases hr : (l.lay.rotating || l.lay.zooming) = true
  · have hsome : ∃ size, l.rotozoom gfx = some size := by
      simp only [SdlLayer.rotozoom]
      split
      · exact ⟨_, rfl⟩
      · split
        · exact ⟨_, rfl⟩
        · simp_all
    obtain ⟨size, hsize⟩ := hsome
    simp only [SdlLayer.surface, SdlLayer.prepare, hsize, Blitter.cropGeo, hr, if_true]
    exact ⟨⟨by omega, uint16_le (by omega)⟩, by omega, uint16_le (by omega)⟩
  · have hnone : l.rotozoom gfx = none := by
      simp_all [SdlLayer.rotozoom]
    simp only [SdlLayer.surface, SdlLayer.prepare, hnone, Blitter.cropGeo, hr]
    have hw := l.lay.geo.w_range
    have hh := l.lay.geo.h_range
    simp
    omega

/-- Making the surface keeps the blit. -/
theorem SdlLayer.prepare_current_blit (gfx : SDL_gfx D) (l : SdlLayer N V D) :
    (l.prepare gfx).lay.current_blit = l.lay.current_blit := by
  simp only [SdlLayer.prepare]
  split <;> rfl

/-- Making the surface keeps the flag. -/
theorem SdlLayer.prepare_need_crop (gfx : SDL_gfx D) (l : SdlLayer N V D) :
    (l.prepare gfx).lay.need_crop = l.lay.need_crop := by
  simp only [SdlLayer.prepare]
  split <;> rfl

section Crop

variable [DecidableEq N]

/-- A crop does not change what the surface is made from. -/
theorem SdlLayer.rotozoom_crop (gfx : SDL_gfx D) (l : SdlLayer N V D) (scr : ViewPort V) :
    SdlLayer.rotozoom gfx { l with toBlitLayer := l.crop scr } = l.rotozoom gfx := by
  have h := Blitter.crop_sameFrame l.lay scr
  simp only [SdlLayer.rotozoom, BlitLayer.crop, BlitLayer.put, h.rotating, h.zooming, h.geo_w,
    h.geo_h]

/-- Nor whether `geo_rotozoom` has its size. -/
theorem SdlLayer.sized_crop :
    SdlLayer.Sized gfx { l with toBlitLayer := l.crop scr } ↔ l.Sized gfx := by
  have h := Blitter.crop_sameFrame l.lay scr
  simp only [SdlLayer.Sized, SdlLayer.rotozoom_crop]
  simp only [BlitLayer.crop, BlitLayer.put]
  rw [h.rotozoom_w, h.rotozoom_h]

/-- **The flag after a crop** for a linear blit is kept exactly when the crop used the size of
the surface or found the layer out of the screen. -/
theorem SdlLayer.kept_crop (hneed : l.lay.need_crop = true ∨ l.Sized gfx)
    (hb : l.lay.current_blit = some b) (hlin : b.type = .LINEAR) :
    SdlLayer.Kept gfx scr { l with toBlitLayer := l.crop scr } ↔
      l.Sized gfx ∨ (Blitter.cropGeo l.lay).OutOf scr.geo := by
  by_cases hout : (Blitter.cropGeo l.lay).OutOf scr.geo
  · obtain ⟨b', hb', hbt, -, hsame, hstays⟩ := Blitter.crop_out_spec hb (Or.inl hlin) hout
    refine iff_of_true (fun b'' _ _ hdone => ⟨?_, fun hin => absurd hstays hin⟩) (Or.inr hout)
    refine SdlLayer.sized_crop.mpr (hneed.resolve_left fun hn => ?_)
    exact absurd (hn.symm.trans (hsame.symm.trans hdone)) Bool.noConfusion
  · obtain ⟨b', hb', hbt, -, hdone, hsame, hcropped⟩ :=
      Blitter.crop_in_spec hb (Or.inl hlin) hout
    constructor
    · intro hk
      exact Or.inl (SdlLayer.sized_crop.mp (hk b' hb' (hbt.trans hlin) hdone).1)
    · rintro (hs | hout')
      · intro b'' hb'' _ _
        obtain rfl : b' = b'' := Option.some.inj (hb'.symm.trans hb'')
        refine ⟨SdlLayer.sized_crop.mpr hs, fun _ => ?_⟩
        change b'.Cropped (Blitter.cropGeo (Blitter.crop l.lay scr)) scr.geo
        rw [hsame]
        exact hcropped
      · exact absurd hout' hout

/-- The flag matters for linear blits only. -/
theorem SdlLayer.kept_crop_other (hb : ∀ b, l.lay.current_blit = some b → b.type ≠ .LINEAR) :
    SdlLayer.Kept gfx scr { l with toBlitLayer := l.crop scr } := by
  intro b' hb' hlin
  change (Blitter.crop l.lay scr).current_blit = some b' at hb'
  have hty := Blitter.crop_type l.lay scr
  rw [hb', Option.map_some] at hty
  obtain ⟨b, hb'', hbt⟩ := Option.map_eq_some_iff.mp hty.symm
  exact absurd (hbt.trans hlin) (hb b hb'')

/-- **The flag after a blit** is kept: it has made the surface first. -/
theorem SdlLayer.Kept.cropNeeded (h : l.Kept gfx scr) :
    ((l.prepare gfx).cropNeeded scr).Kept gfx scr := by
  simp only [SdlLayer.cropNeeded]
  cases hn : (l.prepare gfx).lay.need_crop with
  | false =>
      rw [if_neg Bool.false_ne_true]
      intro b hb hlin _
      rw [SdlLayer.prepare_current_blit] at hb
      rw [SdlLayer.prepare_need_crop] at hn
      obtain ⟨hsized, hcropped⟩ := h b hb hlin hn
      rw [hsized.prepare]
      exact ⟨hsized, hcropped⟩
  | true =>
      rw [if_pos rfl]
      by_cases hlin : ∃ b, (l.prepare gfx).lay.current_blit = some b ∧ b.type = .LINEAR
      · obtain ⟨b, hb, hty⟩ := hlin
        exact (SdlLayer.kept_crop (Or.inl hn) hb hty).mpr (Or.inl (l.sized_prepare gfx))
      · exact SdlLayer.kept_crop_other fun b hb hty => hlin ⟨b, hb, hty⟩

/-- **The blit that the row loop runs on.** When the flag is kept and the layer is in the
screen, it is the one that `crop` computes from the surface that was made. -/
theorem SdlLayer.Kept.current (h : l.Kept gfx scr) (hb : l.lay.current_blit = some b)
    (hlin : b.type = .LINEAR)
    (hin : ¬ (Blitter.cropGeo (l.prepare gfx).lay).OutOf scr.geo) :
    ∃ b', ((l.prepare gfx).cropNeeded scr).lay.current_blit = some b' ∧ b'.type = .LINEAR ∧
      (Blitter.crop (l.prepare gfx).lay scr).current_blit = some b' ∧
      b'.Shows (Blitter.cropGeo (l.prepare gfx).lay) scr.geo := by
  have hb' := (SdlLayer.prepare_current_blit gfx l).trans hb
  simp only [SdlLayer.cropNeeded]
  cases hn : (l.prepare gfx).lay.need_crop with
  | false =>
      rw [SdlLayer.prepare_need_crop] at hn
      obtain ⟨hsized, hcropped⟩ := h b hb hlin hn
      rw [hsized.prepare] at hin ⊢
      have hc := hcropped hin
      rw [if_neg Bool.false_ne_true]
      exact ⟨b, hb, hlin, Blitter.crop_cropped hb (Or.inl hlin) hc, hc.shows hin⟩
  | true =>
      obtain ⟨b', hcrop, hbt, -, -, -, hc⟩ := Blitter.crop_in_spec hb' (Or.inl hlin) hin
      rw [if_pos rfl]
      exact ⟨b', hcrop, hbt.trans hlin, hcrop, hc.shows hin⟩

/-- A crop leaves a layer with a blit when it has one. -/
theorem BlitLayer.isSome_crop (l : BlitLayer N V) (scr : ViewPort V) :
    (l.crop scr).lay.current_blit.isSome = l.lay.current_blit.isSome := by
  have h := congrArg Option.isSome (Blitter.crop_type l.lay scr)
  rwa [Option.isSome_map, Option.isSome_map] at h

/-- `blit`, when the layer has a blit. -/
theorem SdlScreen.blit_eq (hb : ((l.prepare gfx).cropNeeded scr).lay.current_blit = some b) :
    SdlScreen.blit gfx scr l = some ((l.prepare gfx).cropNeeded scr,
      if b.type = .LINEAR then
        SoftScreen.rowLoop b (int16 b.lay_height).toNat b.lay_offset b.scr_offset
      else []) := by
  simp only [SdlScreen.blit, hb]

/-- A layer with a blit has one after the crop of `blit`. -/
theorem SdlLayer.exists_blit (gfx : SDL_gfx D) (scr : ViewPort V)
    (hb : l.lay.current_blit.isSome) :
    ∃ b, ((l.prepare gfx).cropNeeded scr).lay.current_blit = some b := by
  rw [← Option.isSome_iff_exists]
  simp only [SdlLayer.cropNeeded]
  split
  · rw [BlitLayer.isSome_crop, SdlLayer.prepare_current_blit]
    exact hb
  · rw [SdlLayer.prepare_current_blit]
    exact hb

end Crop

/-! ### Runs -/

section Runs

variable [DecidableEq N] [DecidableEq D] [Zero D] [One D] {s t : SdlState N V D}

/-- **One step on a layer whose flag is kept** keeps it if and only if it crops the layer with
the size of its surface. -/
theorem SdlOp.kept_exec (h : s.layer.Kept gfx s.scr.toViewPort)
    (hb : s.layer.lay.current_blit.isSome) {op : SdlOp N D} (ht : op.exec gfx s = some t) :
    t.layer.Kept gfx t.scr.toViewPort ↔ op.Keeps gfx s := by
  cases op with
  | _set_position x y =>
      obtain rfl := Option.some.inj ht
      exact iff_of_true (SdlLayer.kept_of_need_crop rfl) trivial
  | _set_zoom x y =>
      obtain rfl := Option.some.inj ht
      refine iff_of_true (SdlLayer.kept_of_need_crop ?_) trivial
      simp only [SdlLayer._set_zoom]
      split <;> rfl
  | _set_rotate angle =>
      obtain rfl := Option.some.inj ht
      refine iff_of_true (SdlLayer.kept_of_need_crop ?_) trivial
      simp only [SdlLayer._set_rotate]
      split <;> rfl
  | set_blit bname =>
      obtain rfl := Option.some.inj ht
      simp only [SdlOp.Keeps, BlitLayer.set_blit]
      cases hb : s.layer.blitlist bname with
      | none => exact iff_of_true h fun b hb' => absurd hb' (by simp)
      | some b =>
          let l : SdlLayer N V D := { s.layer with
            current := bname
            lay := { s.layer.lay with current_blit := some b, need_crop := true } }
          by_cases hlin : b.type = .LINEAR
          · refine (SdlLayer.kept_crop (l := l) (Or.inl rfl) rfl hlin).trans ?_
            exact ⟨fun hc b' hb' _ => hc, fun hc => hc b rfl hlin⟩
          · refine iff_of_true (SdlLayer.kept_crop_other (l := l) fun b' hb' => ?_)
              fun b' hb' hlin' => ?_
            · exact Option.some.inj hb' ▸ hlin
            · exact absurd (Option.some.inj hb' ▸ hlin') hlin
  | resize w h' =>
      obtain rfl := Option.some.inj ht
      exact iff_of_true h trivial
  | handle_resize =>
      obtain rfl := Option.some.inj ht
      simp only [SdlOp.Keeps]
      by_cases hlin : ∃ b, s.layer.lay.current_blit = some b ∧ b.type = .LINEAR
      · obtain ⟨b, hb, hty⟩ := hlin
        have hneed : s.layer.lay.need_crop = true ∨ s.layer.Sized gfx := by
          cases hn : s.layer.lay.need_crop with
          | false => exact Or.inr (h b hb hty hn).1
          | true => exact Or.inl rfl
        refine (SdlLayer.kept_crop hneed hb hty).trans ?_
        exact ⟨fun hc _ _ _ => hc, fun hc => hc b hb hty⟩
      · refine iff_of_true (SdlLayer.kept_crop_other fun b hb hty => hlin ⟨b, hb, hty⟩)
          fun b hb hty => absurd ⟨b, hb, hty⟩ hlin
  | blit =>
      obtain ⟨r, hr, rfl⟩ := Option.map_eq_some_iff.mp ht
      obtain ⟨b, hb'⟩ := SdlLayer.exists_blit gfx s.scr.toViewPort hb
      rw [SdlScreen.blit_eq hb'] at hr
      obtain rfl := Option.some.inj hr
      exact iff_of_true h.cropNeeded trivial

/-- Every step goes through on a layer with a blit, and leaves it with one. -/
theorem SdlOp.isSome_exec (gfx : SDL_gfx D) (hb : s.layer.lay.current_blit.isSome)
    (op : SdlOp N D) :
    ∃ t, op.exec gfx s = some t ∧ t.layer.lay.current_blit.isSome := by
  cases op with
  | _set_position x y => exact ⟨_, rfl, hb⟩
  | _set_zoom x y =>
      refine ⟨_, rfl, ?_⟩
      simp only [SdlLayer._set_zoom]
      split <;> exact hb
  | _set_rotate angle =>
      refine ⟨_, rfl, ?_⟩
      simp only [SdlLayer._set_rotate]
      split <;> exact hb
  | set_blit bname =>
      refine ⟨_, rfl, ?_⟩
      simp only [BlitLayer.set_blit]
      cases s.layer.blitlist bname with
      | none => exact hb
      | some b => exact BlitLayer.isSome_crop _ _
  | resize w h => exact ⟨_, rfl, hb⟩
  | handle_resize => exact ⟨_, rfl, (BlitLayer.isSome_crop _ _).trans hb⟩
  | blit =>
      obtain ⟨b, hb'⟩ := SdlLayer.exists_blit gfx s.scr.toViewPort hb
      refine ⟨{ s with layer := (s.layer.prepare gfx).cropNeeded s.scr.toViewPort }, ?_,
        Option.isSome_iff_exists.mpr ⟨b, hb'⟩⟩
      rw [SdlOp.exec, SdlScreen.blit_eq hb']
      rfl

/-- In every run that crops the layer only with the size of its surface, it has a blit and its
flag is kept. -/
theorem kept_invariant (gfx : SDL_gfx D) :
    Invariant ((sdlSystem N V gfx).restrict fun s op => op.Keeps gfx s)
      fun s => s.layer.lay.current_blit.isSome ∧ s.layer.Kept gfx s.scr.toViewPort where
  init s h := ⟨h.2, SdlLayer.kept_of_need_crop h.1⟩
  step := by
    rintro s op t ⟨hb, hk⟩ ⟨hkeeps, ht⟩
    obtain ⟨t', ht', hb'⟩ := SdlOp.isSome_exec gfx hb op
    obtain rfl : t = t' := Option.some.inj (ht.symm.trans ht')
    exact ⟨hb', (SdlOp.kept_exec hk hb ht).mpr hkeeps⟩

/-- **Crop data over whole runs.** In every run that crops the layer only with the size of its
surface, a linear blit of the layer, when it is in the screen, runs on the blit that `crop`
computes from the surface that is read and the screen, and goes through pixels inside that
surface and inside the screen. A further step keeps the flag that this rests on if and only
if it crops the layer with the size of its surface too. -/
theorem sdl_blit_up_to_date {gfx : SDL_gfx D}
    (hr : Reachable ((sdlSystem N V gfx).restrict fun s op => op.Keeps gfx s) s) :
    (∀ op : SdlOp N D, ∃ t, op.exec gfx s = some t ∧
      (t.layer.Kept gfx t.scr.toViewPort ↔ op.Keeps gfx s)) ∧
    ∀ b, s.layer.lay.current_blit = some b → b.type = .LINEAR →
      ¬ (Blitter.cropGeo (s.layer.prepare gfx).lay).OutOf s.scr.geo →
      ∃ l calls, SdlScreen.blit gfx s.scr.toViewPort s.layer = some (l, calls) ∧
        l.lay.current_blit =
          (Blitter.crop (s.layer.prepare gfx).lay s.scr.toViewPort).current_blit ∧
        (∃ b', l.lay.current_blit = some b' ∧
          b'.Shows (Blitter.cropGeo (s.layer.prepare gfx).lay) s.scr.geo) ∧
        ∀ p ∈ calls.flatMap RowCall.pixels,
          (0 ≤ p.1 ∧ p.1 < (s.layer.surface gfx).1 * (s.layer.surface gfx).2) ∧
            0 ≤ p.2 ∧ p.2 < s.scr.geo.w * s.scr.geo.h := by
  obtain ⟨hsome, hk⟩ := (kept_invariant gfx).holds hr
  refine ⟨fun op => ?_, fun b hb hlin hin => ?_⟩
  · obtain ⟨t, ht, -⟩ := SdlOp.isSome_exec gfx hsome op
    exact ⟨t, ht, SdlOp.kept_exec hk hsome ht⟩
  · obtain ⟨b', hb', hlin', hcrop, hshows⟩ := hk.current hb hlin hin
    refine ⟨_, _, SdlScreen.blit_eq hb', hb'.trans hcrop.symm, ⟨b', hb', hshows⟩, ?_⟩
    rw [if_pos hlin']
    intro p hp
    obtain ⟨⟨h0, h1⟩, hscr⟩ := hshows.inside_blit hin hp
    obtain ⟨⟨hw0, hw⟩, -, hh⟩ := SdlLayer.cropGeo_prepare gfx s.layer
    have hsize := Int.mul_le_mul hw hh (Blitter.cropGeo (s.layer.prepare gfx).lay).h_range.1 hw0
    exact ⟨⟨h0, h1.trans_le hsize⟩, hscr⟩

end Runs

/-- Surfaces of whole pixels, for zooms by whole numbers and rotations by whole turns. -/
def SDL_gfx.scale : SDL_gfx ℕ where
  rotozoomSurface w h _ zoom := (w.toNat * zoom, h.toNat * zoom)
  zoomSurface w h x y := (w.toNat * x, h.toNat * y)

/-- A layer of one pixel that was just added to a screen of 4 by 4, at 1,1. -/
def SdlState.dot : SdlState Unit Unit ℕ :=
  let geo : Geometry := ⟨1, 1, 1, 1, by decide, by decide, by decide, by decide⟩
  let blit : Blit := ⟨.LINEAR, 0, 0, 0, 0, 0, 0, 0, 0, 0, 0, 0, 0, 0, ⟨0, 0, 0, 0⟩⟩
  let lay : Layer Unit := ⟨(), geo, geo.init 0 0, false, false, false, true, some blit⟩
  ⟨⟨⟨(), geo.init 4 4⟩, false, 0, 0⟩, ⟨⟨lay, fun _ => some blit, ()⟩, 0, 1, 1⟩⟩

/-- The pixel is zoomed by two and blitted: what is read is inside the surface of 2 by 2. -/
theorem sdl_blit_up_to_date_zoomed :
    ∃ (s : SdlState Unit Unit ℕ) (l : SdlLayer Unit Unit ℕ) (calls : List RowCall),
      s.layer.surface SDL_gfx.scale = (2, 2) ∧
      SdlScreen.blit SDL_gfx.scale s.scr.toViewPort s.layer = some (l, calls) ∧
      ∀ p ∈ calls.flatMap RowCall.pixels, 0 ≤ p.1 ∧ p.1 < 2 * 2 := by
  have hzoom : ∀ s : SdlState Unit Unit ℕ, SdlOp.Keeps SDL_gfx.scale s (._set_zoom 2 2) :=
    fun _ => trivial
  have hr := Reachable.init (S := (sdlSystem Unit Unit SDL_gfx.scale).restrict fun s op =>
    op.Keeps SDL_gfx.scale s) (s := SdlState.dot) ⟨rfl, rfl⟩
  have hr := hr.step ⟨hzoom _, rfl⟩
  obtain ⟨l, calls, hblit, -, -, hinside⟩ := (sdl_blit_up_to_date hr).2 _ rfl rfl (by
    simp only [Geometry.OutOf]
    decide)
  exact ⟨_, l, calls, rfl, hblit, fun p hp => (hinside p hp).1⟩

/-- **A stale crop.** The pixel is zoomed by four, blitted and zoomed by two, and the screen is
resized before the next blit: its row loop runs on the crop of the surface of 4 by 4, and
reads the last pixel of that out of a surface of 2 by 2. -/
theorem stale_crop :
    ∃ (s : SdlState Unit Unit ℕ) (l : SdlLayer Unit Unit ℕ) (calls : List RowCall),
      Reachable (sdlSystem Unit Unit SDL_gfx.scale) s ∧
      s.layer.surface SDL_gfx.scale = (2, 2) ∧
      SdlScreen.blit SDL_gfx.scale s.scr.toViewPort s.layer = some (l, calls) ∧
      l.lay.current_blit ≠ (Blitter.crop (s.layer.prepare SDL_gfx.scale).lay
        s.scr.toViewPort).current_blit ∧
      (15, 15) ∈ calls.flatMap RowCall.pixels := by
  have hr : Reachable (sdlSystem Unit Unit SDL_gfx.scale) SdlState.dot := .init ⟨rfl, rfl⟩
  have hrun : exec (SdlOp.exec SDL_gfx.scale) SdlState.dot
    [._set_zoom 4 4, .blit, ._set_zoom 2 2, .handle_resize] = some _ := rfl
  have hr := hr.exec hrun
  exact ⟨_, _, _, hr, by decide, rfl, by decide, by decide⟩

end FreeJ
