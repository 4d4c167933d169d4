import Mathlib.Data.List.Forall2
import FreeJ.SoftScreen
import FreeJ.LayerBlits
import FreeJ.Transition

/-!
# Runs of the Software Screen

`ViewPort::blit_layers` on a `SoftScreen` whose layers are moved, are given other blits and
are cropped again between two passes. The blits are linear or past ones; whatever their
memory holds before the first crop, a layer starts out in need of one. The rotation and the
zoom of a layer are not touched, so that its own geometry is the one that is cropped.

## Main results

* `BlitLayer.Settled.blit`: a blit of one layer, in the screen or out of it.
* `blits_stay_inside`: in every run a pass goes through pixels inside the buffers of the
  layers that are in the screen, and marks the others as hidden.
* `hidden_layer_blitted`: the pass blits those all the same, outside of the screen.
-/

namespace FreeJ

open Transition

/-- A layer in the list of a `SoftScreen`. -/
structure SoftLayer (N V : Type*) extends BlitLayer N V where
  /-- whether there is a picture in `Layer::buffer` -/
  buffer : Bool
  active : Bool
  opened : Bool

/-- A `SoftScreen` and its layers, from `begin()` to `end()`. -/
structure SoftState (N V : Type*) where
  scr : Display V
  layers : List (SoftLayer N V)

/-- What is done between two frames, and the pass of a frame. -/
inductive SoftOp (N : Type*)
  | _set_position (i : ℕ) (x y : ℤ)
  | set_blit (i : ℕ) (bname : N)
  | feed (i : ℕ) (buffer active opened : Bool)
  | resize (w h : ℤ)
  | handle_resize
  | blit_layers

/-- `ViewPort::resize`, which does nothing. -/
def ViewPort.resize (geo : Geometry) (_resize_w _resize_h : ℤ) : Geometry := geo

variable {N V : Type*}

/-- `blit_layers`, whether it comes to the blit of a layer. -/
def SoftLayer.shown (l : SoftLayer N V) : Bool := l.buffer && (l.active && l.opened)

section Operations

variable [DecidableEq N] [DecidableEq V]

/-- `blit_layers`, for one layer: the layer afterwards, and the calls of its blit function. -/
def SoftLayer.blit (scr : ViewPort V) (l : SoftLayer N V) :
    Option (SoftLayer N V × List RowCall) :=
  if l.shown then
    (SoftScreen.blit scr l.lay).map fun r => ({ l with toBlitLayer := l.put r.1 }, r.2)
  else some (l, [])

/-- `ViewPort::blit_layers`, which begins with the last layer. -/
def ViewPort.blit_layers (scr : ViewPort V) :
    List (SoftLayer N V) → Option (List (SoftLayer N V × List RowCall))
  | [] => some []
  | l :: ls =>
    (ViewPort.blit_layers scr ls).bind fun pass =>
      (l.blit scr).map fun r => r :: pass

/-- What the code does in one step; `none` when it follows a null pointer. -/
def SoftOp.exec (s : SoftState N V) : SoftOp N → Option (SoftState N V)
  | ._set_position i x y =>
    some { s with layers := s.layers.modify i fun l =>
      { l with lay := l.lay._set_position x y } }
  | .set_blit i bname =>
    some { s with layers := s.layers.modify i fun l =>
      { l with toBlitLayer := (l.set_blit s.scr.toViewPort bname).2 } }
  | .feed i buffer active opened =>
    some { s with layers := s.layers.modify i fun l =>
      { l with buffer := buffer, active := active, opened := opened } }
  | .resize w h =>
    some { s with scr := { s.scr with resize_w := w, resize_h := h, resizing := true } }
  | .handle_resize =>
    let scr := s.scr.handle_resize ViewPort.resize
    some ⟨scr, s.layers.map fun l => { l with toBlitLayer := l.crop scr.toViewPort }⟩
  | .blit_layers =>
    (ViewPort.blit_layers s.scr.toViewPort s.layers).map fun pass =>
      { s with layers := pass.map Prod.fst }

end Operations

/-- A layer of the screen `scr` that was just added, with blits that were never cropped. -/
structure BlitLayer.Added (l : BlitLayer N V) (scr : ViewPort V) : Prop where
  ours : l.lay.screen = scr.this
  rotating : l.lay.rotating = false
  zooming : l.lay.zooming = false
  need_crop : l.lay.need_crop = true
  current : ∃ b, l.lay.current_blit = some b ∧ b.Rows
  blits : ∀ bname b, l.blitlist bname = some b → b.Rows

/-- Any steps on layers just added. -/
def softSystem (N V : Type*) [DecidableEq N] [DecidableEq V] :
    System (SoftState N V) (SoftOp N) :=
  System.ofFun (fun s => ∀ l ∈ s.layers, l.Added s.scr.toViewPort) SoftOp.exec

/-! ### One layer -/

/-- A layer over a run: it is plain and blitted row by row, and when it needs no crop it is in
the screen and its blit describes the intersection with it. -/
structure BlitLayer.Settled (l : BlitLayer N V) (scr : ViewPort V) : Prop where
  ours : l.lay.screen = scr.this
  rotating : l.lay.rotating = false
  zooming : l.lay.zooming = false
  current : ∃ b, l.lay.current_blit = some b ∧ b.Rows ∧ (l.lay.need_crop = false →
    ¬ l.lay.geo.OutOf scr.geo ∧ l.lay.hidden = false ∧ b.Shows l.lay.geo scr.geo)
  blits : ∀ bname b, l.blitlist bname = some b → b.Rows

variable {l : BlitLayer N V} {scr : ViewPort V}

/-- A layer that was just added is settled. -/
theorem BlitLayer.Added.settled (h : l.Added scr) : l.Settled scr where
  ours := h.ours
  rotating := h.rotating
  zooming := h.zooming
  current := by
    obtain ⟨b, hb, hrows⟩ := h.current
    exact ⟨b, hb, hrows, fun hneed => absurd (h.need_crop.symm.trans hneed) Bool.noConfusion⟩
  blits := h.blits

/-- What is cropped of a plain layer. -/
theorem Blitter.cropGeo_plain {lay : Layer V} (hr : lay.rotating = false)
    (hz : lay.zooming = false) : Blitter.cropGeo lay = lay.geo := by
  simp [Blitter.cropGeo, hr, hz]

/-- A layer that is moved is settled: it needs a crop. -/
theorem BlitLayer.Settled._set_position (h : l.Settled scr) (x y : ℤ) :
    BlitLayer.Settled { l with lay := l.lay._set_position x y } scr where
  ours := h.ours
  rotating := h.rotating
  zooming := h.zooming
  current := by
    obtain ⟨b, hb, hrows, -⟩ := h.current
    exact ⟨b, hb, hrows, fun hneed => absurd hneed Bool.noConfusion⟩
  blits := h.blits

/-- The rows of a settled layer that needs no crop go through pixels inside the buffers. -/
theorem BlitLayer.Settled.inside (h : l.Settled scr) (hneed : l.lay.need_crop = false) :
    ∃ b, l.lay.current_blit = some b ∧
      ∀ p ∈ (SoftScreen.rowLoop b (int16 b.lay_height).toNat b.lay_offset
        b.scr_offset).flatMap RowCall.pixels, Inside l.lay.geo scr.geo p := by
  obtain ⟨b, hb, -, hfresh⟩ := h.current
  obtain ⟨hin, -, hshows⟩ := hfresh hneed
  exact ⟨b, hb, fun p hp => hshows.inside_blit hin hp⟩

section Settled

variable [DecidableEq N]

/-- Writing a layer whose blit goes row by row leaves only such blits in the list. -/
theorem BlitLayer.Settled.blits_put (h : l.Settled scr) {lay : Layer V} {b : Blit}
    (hb : lay.current_blit = some b) (hrows : b.Rows) (bname : N) (b' : Blit)
    (hb' : (l.put lay).blitlist bname = some b') : b'.Rows := by
  simp only [BlitLayer.put] at hb'
  by_cases hname : bname = l.current
  · rw [hname, Function.update_self, hb, Option.some.injEq] at hb'
    exact hb' ▸ hrows
  · rw [Function.update_of_ne hname] at hb'
    exact h.blits bname b' hb'

/-- **A crop** leaves a settled layer settled, finds out whether it is out of the screen, and
is done when it is not. -/
theorem BlitLayer.Settled.crop (h : l.Settled scr) :
    (l.crop scr).Settled scr ∧ ((l.crop scr).lay.hidden = true ↔ l.lay.geo.OutOf scr.geo) ∧
      (¬ l.lay.geo.OutOf scr.geo → (l.crop scr).lay.need_crop = false) := by
  obtain ⟨b, hb, hrows, hfresh⟩ := h.current
  have hgeo := Blitter.cropGeo_plain h.rotating h.zooming
  have hframe := Blitter.crop_sameFrame l.lay scr
  have hrot := hframe.rotating.trans h.rotating
  have hzoom := hframe.zooming.trans h.zooming
  by_cases hout : l.lay.geo.OutOf scr.geo
  · obtain ⟨b', hb', hty, hhidden, hneed, -⟩ :=
      Blitter.crop_out_spec hb hrows (hgeo.symm ▸ hout : (Blitter.cropGeo l.lay).OutOf scr.geo)
    have hrows' : b'.Rows := by rwa [Blit.Rows, hty]
    refine ⟨⟨hframe.screen.trans h.ours, hrot, hzoom, ⟨b', hb', hrows', fun hdone => ?_⟩,
      h.blits_put hb' hrows'⟩, iff_of_true hhidden hout, fun hin => absurd hout hin⟩
    exact absurd hout (hfresh (hneed.symm.trans hdone)).1
  · obtain ⟨b', hb', hty, hhidden, hneed, hsame, hcropped⟩ :=
      Blitter.crop_in_spec hb hrows (hgeo.symm ▸ hout : ¬ (Blitter.cropGeo l.lay).OutOf scr.geo)
    have hrows' : b'.Rows := by rwa [Blit.Rows, hty]
    have hgeo' : (Blitter.crop l.lay scr).geo = l.lay.geo := by
      rw [← Blitter.cropGeo_plain hrot hzoom, hsame, hgeo]
    have hshown : ¬ (l.crop scr).lay.hidden = true := ne_true_of_eq_false hhidden
    refine ⟨⟨hframe.screen.trans h.ours, hrot, hzoom, ⟨b', hb', hrows', fun _ => ?_⟩,
      h.blits_put hb' hrows'⟩, iff_of_false hshown hout, fun _ => hneed⟩
    have hshows := hcropped.shows (hgeo ▸ hout)
    rw [hgeo] at hshows
    exact ⟨hgeo' ▸ hout, hhidden, hgeo' ▸ hshows⟩

/-- A layer that is given another blit is settled. -/
theorem BlitLayer.Settled.set_blit (h : l.Settled scr) (bname : N) :
    (l.set_blit scr bname).2.Settled scr := by
  simp only [BlitLayer.set_blit]
  cases hb : l.blitlist bname with
  | none => exact h
  | some b =>
      refine (BlitLayer.Settled.crop ?_).1
      exact ⟨h.ours, h.rotating, h.zooming, ⟨b, rfl, h.blits bname b hb,
        fun hneed => absurd hneed Bool.noConfusion⟩, h.blits⟩

/-- **A blit of one layer** goes through. When the layer is in the screen, it goes through
pixels inside the two buffers; when it is not, the layer is marked as hidden. -/
theorem BlitLayer.Settled.blit [DecidableEq V] (h : l.Settled scr) :
    ∃ r, SoftScreen.blit scr l.lay = some r ∧ (l.put r.1).Settled scr ∧
      (r.1.hidden = true ↔ l.lay.geo.OutOf scr.geo) ∧
      (¬ l.lay.geo.OutOf scr.geo → ∀ p ∈ r.2.flatMap RowCall.pixels,
        Inside r.1.geo scr.geo p) := by
  have hours : ¬ l.lay.screen ≠ scr.this := fun hne => hne h.ours
  simp only [SoftScreen.blit, if_neg hours]
  cases hneed : l.lay.need_crop with
  | false =>
      obtain ⟨b, hb, hrows, hfresh⟩ := h.current
      obtain ⟨hin, hhidden, -⟩ := hfresh hneed
      obtain ⟨b', hb', hinside⟩ := h.inside hneed
      rw [if_neg Bool.false_ne_true]
      simp only [hb']
      refine ⟨_, rfl, ⟨h.ours, h.rotating, h.zooming, h.current, h.blits_put hb hrows⟩, ?_,
        fun _ => hinside⟩
      exact iff_of_false (ne_true_of_eq_false hhidden) hin
  | true =>
      obtain ⟨hsettled, hhidden, hdone⟩ := h.crop
      obtain ⟨b, hb, -, -⟩ := hsettled.current
      rw [if_pos rfl]
      change (Blitter.crop l.lay scr).current_blit = some b at hb
      simp only [hb]
      refine ⟨_, rfl, hsettled, hhidden, fun hin => ?_⟩
      obtain ⟨b', hb', hinside⟩ := hsettled.inside (hdone hin)
      obtain rfl : b = b' := Option.some.inj (hb.symm.trans hb')
      exact hinside

end Settled

/-! ### The pass -/

/-- What a pass does with a layer: one that is not shown it leaves alone, of the others it
hides those that are out of the screen, and in a layer that is in the screen the blit goes
through pixels inside the two buffers. -/
structure SoftLayer.Passed (scr : ViewPort V) (l : SoftLayer N V)
    (r : SoftLayer N V × List RowCall) : Prop where
  skipped : l.shown = false → r = (l, [])
  hidden : l.shown = true → (r.1.lay.hidden = true ↔ l.lay.geo.OutOf scr.geo)
  inside : ¬ l.lay.geo.OutOf scr.geo →
    ∀ p ∈ r.2.flatMap RowCall.pixels, Inside r.1.lay.geo scr.geo p

/-- No blit of the pass leaves the two buffers, and none of a hidden layer goes through any
pixel. -/
def PassInside (scr : ViewPort V) (pass : List (SoftLayer N V × List RowCall)) : Prop :=
  ∀ r ∈ pass, (∀ p ∈ r.2.flatMap RowCall.pixels, Inside r.1.lay.geo scr.geo p) ∧
    (r.1.lay.hidden = true → r.2.flatMap RowCall.pixels = [])

/-- A layer that is in the screen or is not shown is blitted as it should be. -/
theorem SoftLayer.Passed.harmless {l : SoftLayer N V} {r : SoftLayer N V × List RowCall}
    (h : l.Passed scr r) (hin : l.shown = true → ¬ l.lay.geo.OutOf scr.geo) :
    (∀ p ∈ r.2.flatMap RowCall.pixels, Inside r.1.lay.geo scr.geo p) ∧
      (r.1.lay.hidden = true → r.2.flatMap RowCall.pixels = []) := by
  cases hs : l.shown with
  | false =>
      rw [h.skipped hs]
      exact ⟨fun p hp => absurd hp List.not_mem_nil, fun _ => rfl⟩
  | true => exact ⟨h.inside (hin hs), fun hhidden => absurd ((h.hidden hs).mp hhidden) (hin hs)⟩

/-- A `SoftScreen` is not resized. -/
theorem Display.handle_resize_soft (scr : Display V) :
    (scr.handle_resize ViewPort.resize).toViewPort = scr.toViewPort := by
  simp only [Display.handle_resize]
  split <;> rfl

/-- Editing one element of a list keeps what the edit keeps. -/
theorem forall_mem_modify {α : Type*} {P : α → Prop} {ls : List α} (h : ∀ l ∈ ls, P l)
    (f : α → α) (hf : ∀ l, P l → P (f l)) (i : ℕ) : ∀ l ∈ ls.modify i f, P l := by
  induction ls generalizing i with
  | nil => simp
  | cons l ls ih =>
      obtain ⟨hl, hls⟩ := List.forall_mem_cons.mp h
      cases i with
      | zero => exact List.forall_mem_cons.mpr ⟨hf l hl, hls⟩
      | succ i => exact List.forall_mem_cons.mpr ⟨hl, ih hls i⟩

/-- An element of the second list comes from one of the first. -/
theorem exists_of_forall₂ {α β : Type*} {R : α → β → Prop} {ls : List α} {rs : List β}
    (h : List.Forall₂ R ls rs) {r : β} (hr : r ∈ rs) : ∃ l ∈ ls, R l r := by
  induction h with
  | nil => exact absurd hr List.not_mem_nil
  | cons hlr _ ih =>
      rcases List.mem_cons.mp hr with rfl | hr
      · exact ⟨_, List.mem_cons_self, hlr⟩
      · obtain ⟨l, hl, hlr'⟩ := ih hr
        exact ⟨l, List.mem_cons_of_mem _ hl, hlr'⟩

section Pass

variable [DecidableEq N] [DecidableEq V]

/-- One layer of the pass. -/
theorem SoftLayer.blit_passed {l : SoftLayer N V} (h : l.Settled scr) :
    ∃ r, l.blit scr = some r ∧ r.1.Settled scr ∧ l.Passed scr r := by
  simp only [SoftLayer.blit]
  cases hs : l.shown with
  | false =>
      refine ⟨_, if_neg Bool.false_ne_true, h, ⟨fun _ => rfl, fun hs' => ?_, fun _ p hp => ?_⟩⟩
      · exact absurd (hs.symm.trans hs') Bool.noConfusion
      · exact absurd hp List.not_mem_nil
  | true =>
      obtain ⟨r, heq, hsettled, hhidden, hinside⟩ := h.blit
      rw [if_pos rfl, heq]
      refine ⟨_, rfl, hsettled, ⟨fun hs' => ?_, fun _ => hhidden, hinside⟩⟩
      exact absurd (hs.symm.trans hs') Bool.noConfusion

/-- **One pass** over settled layers goes through and leaves them settled. -/
theorem ViewPort.blit_layers_passed {ls : List (SoftLayer N V)} (h : ∀ l ∈ ls, l.Settled scr) :
    ∃ pass, ViewPort.blit_layers scr ls = some pass ∧ (∀ r ∈ pass, r.1.Settled scr) ∧
      List.Forall₂ (SoftLayer.Passed scr) ls pass := by
  induction ls with
  | nil => exact ⟨[], rfl, fun r hr => absurd hr List.not_mem_nil, .nil⟩
  | cons l ls ih =>
      obtain ⟨pass, hpass, hsettled, hpassed⟩ := ih fun l' hl' => h l' (List.mem_cons_of_mem _ hl')
      obtain ⟨r, hr, hrsettled, hrpassed⟩ := SoftLayer.blit_passed (h l List.mem_cons_self)
      refine ⟨r :: pass, ?_, ?_, .cons hrpassed hpassed⟩
      · simp [ViewPort.blit_layers, hpass, hr]
      · rintro r' (_ | ⟨_, hr'⟩)
        · exact hrsettled
        · exact hsettled r' hr'

/-- In every run all layers are settled. -/
theorem settled_invariant :
    Invariant (softSystem N V) fun s => ∀ l ∈ s.layers, l.Settled s.scr.toViewPort where
  init s h l hl := (h l hl).settled
  step := by
    intro s op t h ht
    change op.exec s = some t at ht
    cases op with
    | _set_position i x y =>
        obtain rfl := Option.some.inj ht
        exact forall_mem_modify h _ (fun l hl => hl._set_position x y) i
    | set_blit i bname =>
        obtain rfl := Option.some.inj ht
        exact forall_mem_modify h _ (fun l hl => hl.set_blit bname) i
    | feed i buffer active opened =>
        obtain rfl := Option.some.inj ht
        exact forall_mem_modify h
          (fun l => { l with buffer := buffer, active := active, opened := opened })
          (fun l hl => hl) i
    | resize w h' =>
        obtain rfl := Option.some.inj ht
        exact h
    | handle_resize =>
        obtain rfl := Option.some.inj ht
        intro l hl
        obtain ⟨l', hl', rfl⟩ := List.mem_map.mp hl
        rw [Display.handle_resize_soft]
        exact (h l' hl').crop.1
    | blit_layers =>
        obtain ⟨pass, hpass, rfl⟩ := Option.map_eq_some_iff.mp ht
        obtain ⟨pass', hpass', hsettled, -⟩ := ViewPort.blit_layers_passed h
        obtain rfl : pass = pass' := Option.some.inj (hpass.symm.trans hpass')
        intro l hl
        obtain ⟨r, hr, rfl⟩ := List.mem_map.mp hl
        exact hsettled r hr

/-- **Blits over whole runs.** In every run of moves, blit selections, resizes and passes, a
pass marks as hidden those of the blitted layers that are out of the screen and stays inside
the buffers for the others; when it blits no layer that is out of the screen, all of it
stays inside the buffers and no hidden layer is touched. -/
theorem blits_stay_inside {s : SoftState N V} (hr : Reachable (softSystem N V) s) :
    ∃ pass, ViewPort.blit_layers s.scr.toViewPort s.layers = some pass ∧
      List.Forall₂ (SoftLayer.Passed s.scr.toViewPort) s.layers pass ∧
      ((∀ l ∈ s.layers, l.shown = true → ¬ l.lay.geo.OutOf s.scr.geo) →
        PassInside s.scr.toViewPort pass) := by
  obtain ⟨pass, hpass, -, hpassed⟩ := ViewPort.blit_layers_passed (settled_invariant.holds hr)
  refine ⟨pass, hpass, hpassed, fun hin r hmem => ?_⟩
  obtain ⟨l, hl, hlr⟩ := exists_of_forall₂ hpassed hmem
  exact hlr.harmless (hin l hl)

end Pass

/-- A layer of 2 by 2 pixels that was just added to a screen of 2 by 2, with its upper left
corner in the lower right one of the screen. -/
def SoftState.corner : SoftState Unit Unit :=
  let geo : Geometry := ⟨0, 0, 2, 2, by decide, by decide, by decide, by decide⟩
  let blit : Blit := ⟨.LINEAR, 0, 0, 0, 0, 0, 0, 0, 0, 0, 0, 0, 0, 0, ⟨0, 0, 0, 0⟩⟩
  let lay : Layer Unit := ⟨(), (geo.setX 1).setY 1, geo, false, false, false, true, some blit⟩
  ⟨⟨⟨(), geo⟩, false, 0, 0⟩, [⟨⟨lay, fun _ => some blit, ()⟩, true, true, true⟩]⟩

theorem SoftState.corner_reachable : Reachable (softSystem Unit Unit) SoftState.corner := by
  refine .init fun l hl => ?_
  obtain rfl := List.mem_singleton.mp hl
  exact ⟨rfl, rfl, rfl, rfl, ⟨_, rfl, Or.inl rfl⟩, fun _ b hb => Option.some.inj hb ▸ Or.inl rfl⟩

/-- The layer in the corner is moved onto the screen: the pass after that stays inside the
buffers. -/
theorem blits_stay_inside_moved :
    ∃ (s : SoftState Unit Unit) (pass : List (SoftLayer Unit Unit × List RowCall)),
      Reachable (softSystem Unit Unit) s ∧
      ViewPort.blit_layers s.scr.toViewPort s.layers = some pass ∧
      PassInside s.scr.toViewPort pass := by
  have hrun : exec SoftOp.exec SoftState.corner [._set_position 0 0 0] = some _ := rfl
  have hr := SoftState.corner_reachable.exec hrun
  obtain ⟨pass, hpass, -, hinside⟩ := blits_stay_inside hr
  refine ⟨_, pass, hr, hpass, hinside fun l hl _ => ?_⟩
  obtain rfl := List.mem_singleton.mp hl
  simp only [Geometry.OutOf]
  decide

/-- **A hidden layer is blitted, outside of the screen.** The layer in the corner is blitted
and moved out of the screen to the right. The crop of the next pass returns early: it has
counted two rows of two pixels, and the strides and the offset are still those of the one
pixel that was left before. -/
theorem hidden_layer_blitted :
    ∃ (s : SoftState Unit Unit) (pass : List (SoftLayer Unit Unit × List RowCall)),
      Reachable (softSystem Unit Unit) s ∧
      ViewPort.blit_layers s.scr.toViewPort s.layers = some pass ∧
      ¬ PassInside s.scr.toViewPort pass ∧
      ∃ r ∈ pass, r.1.lay.hidden = true ∧ (3, 6) ∈ r.2.flatMap RowCall.pixels ∧
        ¬ Inside r.1.lay.geo s.scr.geo (3, 6) := by
  have hrun : exec SoftOp.exec SoftState.corner [.blit_layers, ._set_position 0 5 0] = some _ :=
    rfl
  have hr := SoftState.corner_reachable.exec hrun
  have hpass : ∃ (s : SoftState Unit Unit) (pass : List (SoftLayer Unit Unit × List RowCall)),
      Reachable (softSystem Unit Unit) s ∧
      ViewPort.blit_layers s.scr.toViewPort s.layers = some pass ∧
      ∃ r ∈ pass, r.1.lay.hidden = true ∧ (3, 6) ∈ r.2.flatMap RowCall.pixels ∧
        ¬ Inside r.1.lay.geo s.scr.geo (3, 6) := by
    refine ⟨_, _, hr, rfl, _, List.mem_singleton_self _, by decide, by decide, ?_⟩
    simp only [Inside]
    decide
  obtain ⟨s, pass, hr, heq, r, hmem, hhidden, hpixel, hout⟩ := hpass
  exact ⟨s, pass, hr, heq, fun hinside => hout ((hinside r hmem).1 _ hpixel),
    r, hmem, hhidden, hpixel, hout⟩

end FreeJ
