import Mathlib.Logic.Function.Basic
import FreeJ.Blitter

/-!
# The Blits of a Layer

`_set_position` and `set_blit` of `layer.cpp`, and `handle_resize` of `screen.cpp`. A
layer has a list of blits, each with the counters, strides and offsets that its last crop
left in it, and `current_blit` points to one of them. A `BlitLayer` is a layer with this
list; what is written through the pointer is written into the list as well
(`BlitLayer.put`).

Names are the same up to case, as `Linklist::search` compares them, and a blit is found by
its name or not at all.
-/

namespace FreeJ

open Function (update)

/-- A layer with the blits of its `Blitter`. -/
structure BlitLayer (N V : Type*) where
  lay : Layer V
  /-- what `search` finds in `Blitter::blitlist` -/
  blitlist : N → Option Blit
  /-- the name of the blit that `current_blit` points to -/
  current : N

/-- A `ViewPort` with the resize it is asked for. -/
structure Display (V : Type*) extends ViewPort V where
  resizing : Bool
  resize_w : ℤ
  resize_h : ℤ

/-- `ViewPort::handle_resize`, before all layers are cropped to the new screen size; `resize`
is virtual. -/
def Display.handle_resize {V : Type*} (resize : Geometry → ℤ → ℤ → Geometry) (scr : Display V) :
    Display V :=
  if scr.resizing then
    { scr with geo := resize scr.geo scr.resize_w scr.resize_h, resizing := false }
  else scr

variable {N V : Type*} [DecidableEq N]

/-- Write the layer, and its blit through the pointer. -/
def BlitLayer.put (l : BlitLayer N V) (lay : Layer V) : BlitLayer N V :=
  { l with lay := lay, blitlist := update l.blitlist l.current lay.current_blit }

/-- `Blitter::crop` -/
def BlitLayer.crop (l : BlitLayer N V) (scr : ViewPort V) : BlitLayer N V :=
  l.put (Blitter.crop l.lay scr)

/-- `Layer::_set_position` -/
def Layer._set_position (lay : Layer V) (x y : ℤ) : Layer V :=
  { lay with geo := (lay.geo.setX x).setY y, need_crop := true }

/-- `Layer::set_blit` of a layer on the screen `scr`: whether the blit was found, and the
layer afterwards. -/
def BlitLayer.set_blit (l : BlitLayer N V) (scr : ViewPort V) (bname : N) :
    Bool × BlitLayer N V :=
  match l.blitlist bname with
  | none => (false, l)
  | some b =>
    (true, BlitLayer.crop { l with
      current := bname -- start using
      lay := { l.lay with current_blit := some b, need_crop := true } } scr)

end FreeJ
