import FreeJ.Compositing
import FreeJ.LinearBlits
import FreeJ.SoftScreenRun

/-!
# The Picture on the Screen

What a pass of `ViewPort::blit_layers` leaves in the surface of a `SoftScreen` whose layers have
the linear blits. `SoftScreen::blit` hands the addresses of two rows to the blit function of a
layer (`DrawnLayer.row`); the pass does so for the rows of all layers, the last layer first.

Seen from above, each layer is a sheet over the bytes of the screen, and the pass replaces what
is on the screen by the composite of the sheets. That holds as long as the layers that are
shown are in the screen and the memory of their pictures is not part of the surface.

## Main results

* `DrawnLayer.draw_apply`: the blit of one layer is its sheet.
* `pass_is_composite`: the pass is the composite, in every run.
* `pass_order`: layers with blits that commute may be stacked in any order.
* `pass_covered`: nothing is seen of what is under a layer with a blit that overwrites.
-/

namespace FreeJ

open Transition

variable {V : Type*}

/-- A layer with the memory of its picture, and the number of its blit. -/
structure DrawnLayer (V : Type*) extends SoftLayer LinearBlit V where
  /-- the address of `Layer::buffer` -/
  address : ℤ
  number : CHAR

/-- `SoftScreen::blit`, one call of the blit function of the layer. -/
def DrawnLayer.row (cpu : Cpu) (surface : ℤ) (l : DrawnLayer V) (m : ℤ → CHAR) (call : RowCall) :
    ℤ → CHAR :=
  l.current.blitFun cpu l.number call.bytes (l.address + 4 * call.play) (surface + 4 * call.pscr) m

/-- All calls for a layer. -/
def DrawnLayer.draw (cpu : Cpu) (surface : ℤ) (l : DrawnLayer V) (calls : List RowCall)
    (m : ℤ → CHAR) : ℤ → CHAR :=
  calls.foldl (l.row cpu surface) m

/-- `ViewPort::blit_layers`, what its calls do to the memory: those for the last layer first. -/
def DrawnLayer.drawAll (cpu : Cpu) (surface : ℤ) (ls : List (DrawnLayer V))
    (pass : List (SoftLayer LinearBlit V × List RowCall)) (m : ℤ → CHAR) : ℤ → CHAR :=
  (ls.zip pass).foldr (fun p m => p.1.draw cpu surface p.2.2 m) m

/-! ### Bytes of the screen -/

/-- A byte of a picture: column, row and channel. -/
abbrev Spot := ℤ × ℤ × Fin 4

/-- Where a byte of a picture that is `w` pixels wide is in the memory. -/
def Spot.at (p : Spot) (base w : ℤ) : ℤ := base + 4 * (p.2.1 * w + p.1) + p.2.2.val

/-- The byte is on the screen. -/
def Spot.On (p : Spot) (scr : Geometry) : Prop :=
  (0 ≤ p.1 ∧ p.1 < scr.w) ∧ 0 ≤ p.2.1 ∧ p.2.1 < scr.h

/-- The memory of a picture of `w` by `h` pixels. -/
def InPicture (geo : Geometry) (base a : ℤ) : Prop := base ≤ a ∧ a < base + 4 * (geo.w * geo.h)

/-- The place of a layer's byte under a byte of the screen. -/
def Geometry.under (geo : Geometry) (p : Spot) : Spot := (p.1 - geo.x, p.2.1 - geo.y, p.2.2)

/-- How many bytes of a row of the layer are on the screen. -/
def Geometry.rowBytes (geo scr : Geometry) : ℤ := (min (geo.x + geo.w) scr.w - max geo.x 0) * 4

instance (geo scr : Geometry) (i j : ℤ) : Decidable (geo.Visible scr i j) :=
  inferInstanceAs (Decidable (_ ∧ _))

instance (p : Spot) (scr : Geometry) : Decidable (p.On scr) := inferInstanceAs (Decidable (_ ∧ _))

/-- **A layer as a sheet**: where it is visible, its blit works on the byte below. -/
def DrawnLayer.sheet (cpu : Cpu) (scr : Geometry) (m : ℤ → CHAR) (l : DrawnLayer V) :
    Sheet Spot CHAR := fun p below =>
  if l.lay.geo.Visible scr (l.lay.geo.under p).1 (l.lay.geo.under p).2.1 then
    l.current.blend cpu l.number (l.lay.geo.rowBytes scr)
      (4 * (p.1 - max l.lay.geo.x 0) + p.2.2.val)
      (m ((l.lay.geo.under p).at l.address l.lay.geo.w)) below
  else below

/-- The bytes on the screen. -/
def onScreen (surface w : ℤ) (m : ℤ → CHAR) : Spot → CHAR := fun p => m (p.at surface w)

/-! ### The rows of a layer -/

section Rows

variable {cpu : Cpu} {surface : ℤ} {l : DrawnLayer V} {scr : Geometry} {b : Blit}

/-- The memory of the pictures, and the rows for which the blit does as it should. -/
structure DrawnLayer.Placed (cpu : Cpu) (surface : ℤ) (scr : Geometry) (l : DrawnLayer V) :
    Prop where
  /-- the picture is not part of the surface -/
  apart : surface + 4 * (scr.w * scr.h) ≤ l.address ∨
    l.address + 4 * (l.lay.geo.w * l.lay.geo.h) ≤ surface
  /-- the rows on the screen can be counted by an `int16_t` -/
  rows : min (l.lay.geo.y + l.lay.geo.h) scr.h - max l.lay.geo.y 0 < 2 ^ 15
  /-- the assembler takes the right loop -/
  right : ∀ j, l.lay.geo.Visible scr (max (-l.lay.geo.x) 0) j →
    ¬ l.current.Wraps cpu l.number (l.lay.geo.rowBytes scr)
      (Spot.at (max (-l.lay.geo.x) 0, j, 0) l.address l.lay.geo.w)

/-- The calls for a layer are a loop over rows. -/
theorem DrawnLayer.draw_rowLoop (l : DrawnLayer V) (cpu : Cpu) (surface : ℤ) (b : Blit) (n : ℕ)
    (play pscr : ℤ) (m : ℤ → CHAR) :
    l.draw cpu surface (SoftScreen.rowLoop b n play pscr) m =
      FreeJ.rows (l.current.blitFun cpu l.number b.lay_bytepitch)
        (4 * (b.lay_stride + b.lay_pitch)) (4 * (b.scr_stride + b.lay_pitch)) n
        (l.address + 4 * play) (surface + 4 * pscr) m := by
  induction n generalizing play pscr m with
  | zero => rfl
  | succ n ih =>
      have hplay : l.address + 4 * play + 4 * (b.lay_stride + b.lay_pitch) =
          l.address + 4 * (play + (b.lay_stride + b.lay_pitch)) := by ring
      have hpscr : surface + 4 * pscr + 4 * (b.scr_stride + b.lay_pitch) =
          surface + 4 * (pscr + (b.scr_stride + b.lay_pitch)) := by ring
      rw [SoftScreen.rowLoop, FreeJ.rows, hplay, hpscr, ← ih]
      rfl

/-- A pixel in a row on the screen is visible. -/
theorem Geometry.visible_row {geo : Geometry} (hb : b.Shows geo scr) {j : ℕ}
    (hj : j < b.lay_height.toNat) {t : ℤ} (ht : 0 ≤ t ∧ t < b.lay_pitch) :
    geo.Visible scr (max (-geo.x) 0 + t) (max (-geo.y) 0 + j) := by
  have hp := hb.pitch
  have hh := hb.height
  simp only [Geometry.Visible]
  omega

/-- The pixels of a row are in its buffer. -/
theorem row_range {w h i j pitch : ℤ} (hi : 0 ≤ i ∧ i + pitch ≤ w) (hj : 0 ≤ j ∧ j < h)
    (hpitch : 0 < pitch) : 0 ≤ j * w + i ∧ j * w + i + pitch ≤ w * h := by
  have hfirst := index_range (w := w) (i := i) (by omega) hj
  have hlast := index_range (w := w) (i := i + pitch - 1) (by omega) hj
  omega

/-- A layer in the screen has no negative number of pixels in a row. -/
theorem Geometry.rowBytes_nonneg {geo : Geometry} (hin : ¬ geo.OutOf scr) :
    0 ≤ geo.rowBytes scr ∧ geo.rowBytes scr < 2 ^ 31 ∧ geo.rowBytes scr % 4 = 0 := by
  have hw := geo.w_range
  have hx := geo.x_range
  have hsw := scr.w_range
  simp only [Geometry.OutOf] at hin
  simp only [Geometry.rowBytes]
  omega

/-- The rows of the layer and those of the screen are in their pictures. -/
theorem DrawnLayer.rows_range {geo : Geometry} (hb : b.Shows geo scr) {j : ℕ}
    (hj : j < b.lay_height.toNat) (hpitch : 0 < b.lay_pitch) (address surface : ℤ) :
    (address ≤ address + 4 * b.lay_offset + j * (4 * geo.w) ∧
        address + 4 * b.lay_offset + j * (4 * geo.w) + b.lay_bytepitch ≤
          address + 4 * (geo.w * geo.h)) ∧
      surface ≤ surface + 4 * b.scr_offset + j * (4 * scr.w) ∧
        surface + 4 * b.scr_offset + j * (4 * scr.w) + b.lay_bytepitch ≤
          surface + 4 * (scr.w * scr.h) := by
  have hp := hb.pitch
  have hh := hb.height
  have hpix := hb.bytepitch
  have hx := geo.x_range
  have hsrc := row_range (w := geo.w) (h := geo.h) (i := max (-geo.x) 0)
    (j := max (-geo.y) 0 + j) (by omega) (by omega) hpitch
  have hdst := row_range (w := scr.w) (h := scr.h) (i := max geo.x 0)
    (j := max geo.y 0 + j) (by omega) (by omega) hpitch
  have hlay : 4 * b.lay_offset + j * (4 * geo.w) =
      4 * ((max (-geo.y) 0 + j) * geo.w + max (-geo.x) 0) := by
    rw [hb.lay_offset]
    ring
  have hscr : 4 * b.scr_offset + j * (4 * scr.w) =
      4 * ((max geo.y 0 + j) * scr.w + max geo.x 0) := by
    rw [hb.scr_offset]
    ring
  omega

/-- **The rows of a blit** that describes the intersection of the layer with the screen. -/
theorem DrawnLayer.onRows (hin : ¬ l.lay.geo.OutOf scr) (hb : b.Shows l.lay.geo scr)
    (hplaced : l.Placed cpu surface scr) :
    OnRows (l.current.blitFun cpu l.number b.lay_bytepitch)
      (l.current.blend cpu l.number b.lay_bytepitch) (4 * l.lay.geo.w) (4 * scr.w)
      b.lay_bytepitch b.lay_height.toNat (l.address + 4 * b.lay_offset)
      (surface + 4 * b.scr_offset) := by
  intro j hj m a
  have hbytes : b.lay_bytepitch = l.lay.geo.rowBytes scr := by
    rw [hb.bytepitch, hb.pitch, Geometry.rowBytes]
  obtain ⟨h0, h31, h4⟩ := Geometry.rowBytes_nonneg hin
  rw [← hbytes] at h0 h31 h4
  have hnat : (b.lay_bytepitch.toNat : ℤ) = b.lay_bytepitch := Int.toNat_of_nonneg h0
  have hpix := hb.bytepitch
  have hapart : Apart (l.address + 4 * b.lay_offset + j * (4 * l.lay.geo.w))
      (surface + 4 * b.scr_offset + j * (4 * scr.w)) b.lay_bytepitch.toNat := by
    simp only [Apart, hnat]
    by_cases hpitch : 0 < b.lay_pitch
    · have happ := hplaced.apart
      have hrange := DrawnLayer.rows_range hb hj hpitch l.address surface
      omega
    · omega
  have hright : ¬ l.current.Wraps cpu l.number b.lay_bytepitch
      (l.address + 4 * b.lay_offset + j * (4 * l.lay.geo.w)) := by
    intro hwraps
    have h7 := hwraps.1.2
    have hrow := Geometry.visible_row hb hj (t := 0) (by omega)
    have hs : l.address + 4 * b.lay_offset + j * (4 * l.lay.geo.w) =
        Spot.at (max (-l.lay.geo.x) 0, max (-l.lay.geo.y) 0 + j, 0) l.address l.lay.geo.w := by
      simp only [hb.lay_offset, Spot.at, Fin.isValue, Fin.val_zero, Nat.cast_zero]
      ring
    rw [add_zero] at hrow
    rw [hbytes, hs] at hwraps
    exact hplaced.right _ hrow hwraps
  have hmain := LinearBlit.blitFun_apply cpu l.number h0 h31 h4 hapart hright m a
  rwa [hnat] at hmain

/-- The picture of the layer is not written by the rows. -/
theorem DrawnLayer.rows_apart (hb : b.Shows l.lay.geo scr) (hplaced : l.Placed cpu surface scr)
    (i j : ℕ) (hi : i < b.lay_height.toNat) (hj : j < b.lay_height.toNat) (t : ℤ) (ht0 : 0 ≤ t)
    (htk : t < b.lay_bytepitch) :
    ¬ (surface + 4 * b.scr_offset + j * (4 * scr.w) ≤
        l.address + 4 * b.lay_offset + i * (4 * l.lay.geo.w) + t ∧
      l.address + 4 * b.lay_offset + i * (4 * l.lay.geo.w) + t <
        surface + 4 * b.scr_offset + j * (4 * scr.w) + b.lay_bytepitch) := by
  have hpix := hb.bytepitch
  have happ := hplaced.apart
  have hsrc := (DrawnLayer.rows_range hb hi (by omega) l.address surface).1
  have hdst := (DrawnLayer.rows_range hb hj (by omega) l.address surface).2
  omega

/-- A byte of the screen that is in a row of the layer. -/
theorem Spot.in_row {geo : Geometry} (hb : b.Shows geo scr) {p : Spot} (hon : p.On scr) {j : ℕ}
    (h : surface + 4 * b.scr_offset + j * (4 * scr.w) ≤ p.at surface scr.w ∧
      p.at surface scr.w < surface + 4 * b.scr_offset + j * (4 * scr.w) + b.lay_bytepitch) :
    p.2.1 = max geo.y 0 + j ∧ 0 ≤ p.1 - max geo.x 0 ∧ p.1 - max geo.x 0 < b.lay_pitch := by
  have hp := hb.pitch
  have hpix := hb.bytepitch
  have hc := p.2.2.isLt
  have hrow : 4 * b.scr_offset + j * (4 * scr.w) =
      4 * ((max geo.y 0 + j) * scr.w + max geo.x 0) := by
    rw [hb.scr_offset]
    ring
  simp only [Spot.at] at h
  obtain ⟨t, ht⟩ : ∃ t, t = p.2.1 * scr.w + p.1 - ((max geo.y 0 + j) * scr.w + max geo.x 0) :=
    ⟨_, rfl⟩
  have hsame : p.2.1 = max geo.y 0 + j ∧ p.1 = max geo.x 0 + t :=
    index_inj hon.1 (by omega) (by omega)
  omega

/-- Where a byte of the screen is, from the first one in the rows of the layer. -/
theorem Spot.at_eq {geo : Geometry} (hb : b.Shows geo scr) (surface : ℤ) (p : Spot) :
    p.at surface scr.w = surface + 4 * b.scr_offset + (p.2.1 - max geo.y 0) * (4 * scr.w) +
      (4 * (p.1 - max geo.x 0) + p.2.2.val) := by
  simp only [Spot.at, hb.scr_offset]
  ring

/-- Where the byte under it is. -/
theorem Spot.under_at {geo : Geometry} (hb : b.Shows geo scr) (address : ℤ) (p : Spot) :
    (geo.under p).at address geo.w =
      address + 4 * b.lay_offset + (p.2.1 - max geo.y 0) * (4 * geo.w) +
        (4 * (p.1 - max geo.x 0) + p.2.2.val) := by
  have hx : max geo.x 0 = geo.x + max (-geo.x) 0 := by omega
  have hy : max geo.y 0 = geo.y + max (-geo.y) 0 := by omega
  simp only [Spot.at, Geometry.under, hb.lay_offset, hx, hy]
  ring

/-- **One layer.** The rows of a layer change the bytes where it is visible, as its sheet says,
and no others. -/
theorem DrawnLayer.rows_apply (hin : ¬ l.lay.geo.OutOf scr) (hb : b.Shows l.lay.geo scr)
    (hplaced : l.Placed cpu surface scr) (m : ℤ → CHAR) :
    (∀ p : Spot, p.On scr → FreeJ.rows (l.current.blitFun cpu l.number b.lay_bytepitch)
        (4 * l.lay.geo.w) (4 * scr.w) b.lay_height.toNat (l.address + 4 * b.lay_offset)
        (surface + 4 * b.scr_offset) m (p.at surface scr.w) =
          l.sheet cpu scr m p (m (p.at surface scr.w))) ∧
      ∀ a, ¬ InPicture scr surface a →
        FreeJ.rows (l.current.blitFun cpu l.number b.lay_bytepitch)
          (4 * l.lay.geo.w) (4 * scr.w) b.lay_height.toNat (l.address + 4 * b.lay_offset)
          (surface + 4 * b.scr_offset) m a = m a := by
  have hp := hb.pitch
  have hh := hb.height
  have hpix := hb.bytepitch
  have hrows := l.onRows hin hb hplaced
  constructor
  · intro p hon
    have hc := p.2.2.isLt
    rw [sheet]
    by_cases hvis : l.lay.geo.Visible scr (l.lay.geo.under p).1 (l.lay.geo.under p).2.1
    · rw [if_pos hvis]
      simp only [Geometry.Visible, Geometry.under] at hvis
      have hj : ((p.2.1 - max l.lay.geo.y 0).toNat : ℤ) = p.2.1 - max l.lay.geo.y 0 := by omega
      have hcell := rows_of_mem (m := m) hrows (by omega) (rows_apart hb hplaced)
        (j := (p.2.1 - max l.lay.geo.y 0).toNat) (by omega)
        (t := 4 * (p.1 - max l.lay.geo.x 0) + p.2.2.val) (by omega) (by omega)
      rw [hj, ← Spot.at_eq hb surface p, ← Spot.under_at hb l.address p] at hcell
      rw [hcell, hpix, hp, Geometry.rowBytes]
    · rw [if_neg hvis]
      refine rows_of_notMem hrows fun j hj hmem => hvis ?_
      obtain ⟨hy, hx0, hx1⟩ := Spot.in_row hb hon hmem
      have hrow := Geometry.visible_row hb hj ⟨hx0, hx1⟩
      have hi : max (-l.lay.geo.x) 0 + (p.1 - max l.lay.geo.x 0) = p.1 - l.lay.geo.x := by omega
      have hjy : max (-l.lay.geo.y) 0 + (j : ℤ) = p.2.1 - l.lay.geo.y := by omega
      rwa [hi, hjy] at hrow
  · intro a ha
    refine rows_of_notMem hrows fun j hj hmem => ha ?_
    have hrange := (DrawnLayer.rows_range hb hj (by omega) l.address surface).2
    exact ⟨by omega, by omega⟩

end Rows

/-! ### The pass -/

/-- The sheets of the layers that are shown. -/
def DrawnLayer.sheets (cpu : Cpu) (scr : Geometry) (m : ℤ → CHAR) (ls : List (DrawnLayer V)) :
    List (Sheet Spot CHAR) :=
  (ls.filter fun l => l.shown).map fun l => l.sheet cpu scr m

/-- The layer can be drawn: if it is shown, it is in the screen. -/
def DrawnLayer.Drawable (cpu : Cpu) (surface : ℤ) (scr : Geometry) (l : DrawnLayer V) : Prop :=
  l.shown = true → ¬ l.lay.geo.OutOf scr ∧ l.Placed cpu surface scr

section Blit

variable [DecidableEq V] {scr : ViewPort V}

/-- **A blit of a layer in the screen** is the loop over its rows on it, and does not move it. -/
theorem BlitLayer.Settled.blit_rows {N : Type*} [DecidableEq N] {l : BlitLayer N V}
    (h : l.Settled scr) (hin : ¬ l.lay.geo.OutOf scr.geo)
    (hrows : min (l.lay.geo.y + l.lay.geo.h) scr.geo.h - max l.lay.geo.y 0 < 2 ^ 15) :
    ∃ lay b, SoftScreen.blit scr l.lay = some (lay,
        SoftScreen.rowLoop b b.lay_height.toNat b.lay_offset b.scr_offset) ∧
      b.Shows l.lay.geo scr.geo ∧ lay.geo = l.lay.geo := by
  have hours : ¬ l.lay.screen ≠ scr.this := fun hne => hne h.ours
  have hcount {b : Blit} (hb : b.Shows l.lay.geo scr.geo) : int16 b.lay_height = b.lay_height := by
    have hh := hb.height
    have hy := l.lay.geo.y_range
    have hr := l.lay.geo.h_range
    have hs := scr.geo.h_range
    simp only [Geometry.OutOf] at hin
    exact int16_eq (by omega) (by omega)
  simp only [SoftScreen.blit, if_neg hours]
  cases hneed : l.lay.need_crop with
  | false =>
      obtain ⟨b, hb, -, hfresh⟩ := h.current
      obtain ⟨-, -, hshows⟩ := hfresh hneed
      rw [if_neg Bool.false_ne_true]
      simp only [hb]
      exact ⟨l.lay, b, by rw [hcount hshows], hshows, rfl⟩
  | true =>
      obtain ⟨b, hb, hbrows, -⟩ := h.current
      have hgeo := Blitter.cropGeo_plain h.rotating h.zooming
      have hframe := Blitter.crop_sameFrame l.lay scr
      obtain ⟨b', hb', -, -, -, hsame, hcropped⟩ :=
        Blitter.crop_in_spec hb hbrows (hgeo.symm ▸ hin : ¬ (Blitter.cropGeo l.lay).OutOf scr.geo)
      have hshows := hcropped.shows (hgeo ▸ hin)
      rw [hgeo] at hshows
      rw [if_pos rfl]
      simp only [hb']
      refine ⟨Blitter.crop l.lay scr, b', by rw [hcount hshows], hshows, ?_⟩
      rw [← Blitter.cropGeo_plain (hframe.rotating.trans h.rotating)
        (hframe.zooming.trans h.zooming), hsame, hgeo]

variable {cpu : Cpu} {surface : ℤ} {l : DrawnLayer V} {ls : List (DrawnLayer V)}

/-- What a pass does with one layer: its rows are its sheet, and it stays where it is. -/
structure DrawnLayer.Blitted (cpu : Cpu) (surface : ℤ) (scr : Geometry) (l : DrawnLayer V)
    (r : SoftLayer LinearBlit V × List RowCall) : Prop where
  seen : ∀ (m : ℤ → CHAR) (p : Spot), p.On scr → l.draw cpu surface r.2 m (p.at surface scr.w) =
    composite (sheets cpu scr m [l]) (onScreen surface scr.w m) p
  frame : ∀ (m : ℤ → CHAR) (a : ℤ), ¬ InPicture scr surface a → l.draw cpu surface r.2 m a = m a
  geo : r.1.lay.geo = l.lay.geo
  current : r.1.current = l.current
  shown : r.1.shown = l.shown

/-- **The blit of one layer.** -/
theorem DrawnLayer.blit_blitted (h : l.Settled scr) (hl : l.Drawable cpu surface scr.geo) :
    ∃ r, l.toSoftLayer.blit scr = some r ∧ l.Blitted cpu surface scr.geo r := by
  simp only [SoftLayer.blit]
  cases hs : l.shown with
  | false =>
      rw [if_neg Bool.false_ne_true]
      refine ⟨_, rfl, fun m p _ => ?_, fun _ _ _ => rfl, rfl, rfl, rfl⟩
      simp [sheets, hs, draw, onScreen]
  | true =>
      obtain ⟨hin, hplaced⟩ := hl hs
      obtain ⟨lay, b, hblit, hshows, hgeo⟩ := h.blit_rows hin hplaced.rows
      rw [if_pos rfl, hblit]
      have hdraw := l.draw_rowLoop cpu surface b b.lay_height.toNat b.lay_offset b.scr_offset
      rw [hshows.lay_row, hshows.scr_row] at hdraw
      refine ⟨_, rfl, fun m p hon => ?_, fun m a ha => ?_, hgeo, rfl, rfl⟩
      · simp only [sheets, List.filter_cons, hs, if_true, List.filter_nil, List.map_cons,
          List.map_nil, composite_cons, composite_nil, hdraw]
        exact (l.rows_apply hin hshows hplaced m).1 p hon
      · simp only [hdraw]
        exact (l.rows_apply hin hshows hplaced m).2 a ha

omit [DecidableEq V] in
/-- A sheet does not depend on the surface. -/
theorem DrawnLayer.sheet_congr (hplaced : l.Placed cpu surface scr.geo) {m m' : ℤ → CHAR}
    (hm : ∀ a, ¬ InPicture scr.geo surface a → m a = m' a) :
    l.sheet cpu scr.geo m = l.sheet cpu scr.geo m' := by
  funext p below
  rw [sheet, sheet]
  refine ite_congr rfl (fun hvis => ?_) fun _ => rfl
  rw [hm]
  intro hmem
  -- the byte is in the picture of the layer, which is not part of the surface
  have hc := p.2.2.isLt
  have hrange := index_range (w := l.lay.geo.w) (h := l.lay.geo.h) hvis.1 hvis.2.1
  have happ := hplaced.apart
  simp only [InPicture, Spot.at, Geometry.under] at hmem hrange
  omega

omit [DecidableEq V] in
/-- Nor do the sheets of the layers. -/
theorem DrawnLayer.sheets_congr (hl : ∀ l ∈ ls, l.Drawable cpu surface scr.geo)
    {m m' : ℤ → CHAR} (hm : ∀ a, ¬ InPicture scr.geo surface a → m a = m' a) :
    sheets cpu scr.geo m ls = sheets cpu scr.geo m' ls := by
  refine List.map_congr_left fun l hmem => ?_
  obtain ⟨hl', hs⟩ := List.mem_filter.mp hmem
  exact sheet_congr ((hl l hl') hs).2 hm

/-- **One pass** draws the composite of the layers, and changes nothing but the surface. -/
theorem DrawnLayer.pass_composite (h : ∀ l ∈ ls, l.Settled scr)
    (hl : ∀ l ∈ ls, l.Drawable cpu surface scr.geo) :
    ∃ pass, ViewPort.blit_layers scr (ls.map fun l => l.toSoftLayer) = some pass ∧
      List.Forall₂ (Blitted cpu surface scr.geo) ls pass ∧ ∀ m : ℤ → CHAR,
        (∀ p : Spot, p.On scr.geo → drawAll cpu surface ls pass m (p.at surface scr.geo.w) =
          composite (sheets cpu scr.geo m ls) (onScreen surface scr.geo.w m) p) ∧
        ∀ a, ¬ InPicture scr.geo surface a → drawAll cpu surface ls pass m a = m a := by
  induction ls with
  | nil => exact ⟨[], rfl, .nil, fun m => ⟨fun _ _ => rfl, fun _ _ => rfl⟩⟩
  | cons l ls ih =>
      obtain ⟨hl0, hls⟩ := List.forall_mem_cons.mp hl
      obtain ⟨h0, hs⟩ := List.forall_mem_cons.mp h
      obtain ⟨pass, hpass, hall, hdrawn⟩ := ih hs hls
      obtain ⟨r, hr, hblitted⟩ := blit_blitted h0 hl0
      refine ⟨r :: pass, ?_, .cons hblitted hall, fun m => ?_⟩
      · simp [ViewPort.blit_layers, hpass, hr]
      · obtain ⟨hseen, hframe⟩ := hdrawn m
        have hcons : drawAll cpu surface (l :: ls) (r :: pass) m =
            l.draw cpu surface r.2 (drawAll cpu surface ls pass m) := rfl
        have hsheets : sheets cpu scr.geo m (l :: ls) =
            sheets cpu scr.geo m [l] ++ sheets cpu scr.geo m ls := by
          rw [sheets, sheets, sheets, ← List.map_append, ← List.filter_append]
          rfl
        have hsame : sheets cpu scr.geo (drawAll cpu surface ls pass m) [l] =
            sheets cpu scr.geo m [l] :=
          sheets_congr (fun l' hl' => List.mem_singleton.mp hl' ▸ hl0) hframe
        constructor
        · intro p hon
          rw [hcons, hblitted.seen _ p hon, hsame, hsheets, composite_append]
          exact composite_congr (hseen p hon)
        · intro a ha
          rw [hcons, hblitted.frame _ a ha, hframe a ha]

end Blit

/-! ### Frames in a run -/

/-- Each byte of the surface is one of the screen. -/
theorem InPicture.exists_spot {scr : Geometry} {surface a : ℤ} (h : InPicture scr surface a) :
    ∃ p : Spot, p.On scr ∧ p.at surface scr.w = a := by
  obtain ⟨hlo, hhi⟩ := h
  have hsw := scr.w_range
  -- the number of the pixel, and its column and row
  obtain ⟨k, hk⟩ : ∃ k, k = (a - surface) / 4 := ⟨_, rfl⟩
  have hk0 : 0 ≤ k ∧ k < scr.w * scr.h := by omega
  have hpos : 0 < scr.w := by
    rcases Int.lt_or_eq_of_le hsw.1 with h | h
    · exact h
    · rw [← h, zero_mul] at hk0
      omega
  have hrow := Int.emod_add_mul_ediv k scr.w
  have hcol := Int.emod_nonneg k (Int.ne_of_gt hpos)
  have hcol' := Int.emod_lt_of_pos k hpos
  have hdiv := Int.ediv_nonneg hk0.1 (Int.le_of_lt hpos)
  have hdiv' : k / scr.w < scr.h := Int.ediv_lt_of_lt_mul hpos (by rw [Int.mul_comm]; exact hk0.2)
  refine ⟨(k % scr.w, k / scr.w, ⟨((a - surface) % 4).toNat, by omega⟩),
    ⟨⟨hcol, hcol'⟩, hdiv, hdiv'⟩, ?_⟩
  have hcomm : k / scr.w * scr.w = scr.w * (k / scr.w) := Int.mul_comm _ _
  simp only [Spot.at]
  omega

/-- Two memories that look the same on the screen and are the same outside of it are the same. -/
theorem memory_ext (scr : Geometry) (surface : ℤ) {m m' : ℤ → CHAR}
    (hon : ∀ p : Spot, p.On scr → m (p.at surface scr.w) = m' (p.at surface scr.w))
    (hout : ∀ a, ¬ InPicture scr surface a → m a = m' a) : m = m' := by
  funext a
  by_cases h : InPicture scr surface a
  · obtain ⟨p, hp, rfl⟩ := h.exists_spot
    exact hon p hp
  · exact hout a h

/-- The screen with these layers. -/
def DrawnLayer.state (scr : Display V) (ls : List (DrawnLayer V)) : SoftState LinearBlit V :=
  ⟨scr, ls.map fun l => l.toSoftLayer⟩

/-! ### A small screen -/

/-- The filters are built without MMX. -/
def Cpu.plain : Cpu := ⟨false, true, true⟩

theorem small_position : -2 ^ 15 ≤ (0 : ℤ) ∧ (0 : ℤ) < 2 ^ 15 := by decide

theorem small_size : 0 ≤ (2 : ℤ) ∧ (2 : ℤ) < 2 ^ 16 := by decide

/-- 2 by 2 pixels. -/
def smallGeometry : Geometry :=
  ⟨0, 0, 2, 2, small_position, small_position, small_size, small_size⟩

/-- A screen of 2 by 2 pixels. -/
def smallScreen : Display Unit := ⟨⟨(), smallGeometry⟩, false, 0, 0⟩

/-- A layer that covers the small screen, just added. -/
def smallLayer (b : LinearBlit) (address : ℤ) (number : CHAR) : DrawnLayer Unit :=
  let blit : Blit := ⟨.LINEAR, 0, 0, 0, 0, 0, 0, 0, 0, 0, 0, 0, 0, 0, ⟨0, 0, 0, 0⟩⟩
  let lay : Layer Unit := ⟨(), smallGeometry, smallGeometry, false, false, false, true, some blit⟩
  ⟨⟨⟨lay, fun _ => some blit, b⟩, true, true, true⟩, address, number⟩

/-- Such a layer can be drawn if its picture is behind the surface at 0. -/
theorem smallLayer_drawable (b : LinearBlit) {address : ℤ} (h : 16 ≤ address) (number : CHAR) :
    (smallLayer b address number).Drawable Cpu.plain 0 smallScreen.geo := by
  refine fun _ => ⟨?_, Or.inl h, ?_, fun j _ hwraps => Bool.noConfusion hwraps.1.1⟩
  · simp [Geometry.OutOf, smallLayer, smallScreen, smallGeometry]
  · simp [smallLayer, smallScreen, smallGeometry]

/-- Any such layers are a state of a run. -/
theorem smallScreen_reachable {ls : List (DrawnLayer Unit)}
    (h : ∀ l ∈ ls, ∃ b address number, l = smallLayer b address number) :
    Reachable (softSystem LinearBlit Unit) (DrawnLayer.state smallScreen ls) := by
  refine .init fun l hl => ?_
  obtain ⟨l, hmem, rfl⟩ := List.mem_map.mp hl
  obtain ⟨b, address, number, rfl⟩ := h l hmem
  exact ⟨rfl, rfl, rfl, rfl, ⟨_, rfl, Or.inl rfl⟩, fun _ _ hb => Option.some.inj hb ▸ Or.inl rfl⟩

/-- Two layers on the small screen. -/
def smallStack (b b' : LinearBlit) : List (DrawnLayer Unit) :=
  [smallLayer b 64 0, smallLayer b' 128 0]

theorem smallStack_reachable (b b' : LinearBlit) :
    Reachable (softSystem LinearBlit Unit) (DrawnLayer.state smallScreen (smallStack b b')) := by
  refine smallScreen_reachable fun l hl => ?_
  rcases List.mem_pair.mp hl with rfl | rfl
  · exact ⟨_, _, _, rfl⟩
  · exact ⟨_, _, _, rfl⟩

theorem smallStack_drawable (b b' : LinearBlit) (l : DrawnLayer Unit) (hl : l ∈ smallStack b b') :
    l.Drawable Cpu.plain 0 smallScreen.geo := by
  rcases List.mem_pair.mp hl with rfl | rfl
  · exact smallLayer_drawable b (by decide) 0
  · exact smallLayer_drawable b' (by decide) 0

/-! ### What is seen -/

section Frames

variable [DecidableEq V] {scr : Display V} {cpu : Cpu} {surface : ℤ} {ls : List (DrawnLayer V)}

/-- The pass in a run. -/
theorem pass_composite_of (hr : Reachable (softSystem LinearBlit V) (DrawnLayer.state scr ls))
    (hl : ∀ l ∈ ls, l.Drawable cpu surface scr.geo) :
    ∃ pass, ViewPort.blit_layers scr.toViewPort (DrawnLayer.state scr ls).layers = some pass ∧
      List.Forall₂ (DrawnLayer.Blitted cpu surface scr.geo) ls pass ∧ ∀ m : ℤ → CHAR,
        (∀ p : Spot, p.On scr.geo →
          DrawnLayer.drawAll cpu surface ls pass m (p.at surface scr.geo.w) =
            composite (DrawnLayer.sheets cpu scr.geo m ls) (onScreen surface scr.geo.w m) p) ∧
        ∀ a, ¬ InPicture scr.geo surface a → DrawnLayer.drawAll cpu surface ls pass m a = m a := by
  have hs := settled_invariant.holds hr
  exact DrawnLayer.pass_composite (fun l hl => hs l.toSoftLayer (List.mem_map_of_mem hl)) hl

/-- The blits of the two layers may be exchanged, or there is no pixel of the screen on which both
are visible. -/
def DrawnLayer.Exchange (scr : Geometry) (l l' : DrawnLayer V) : Prop :=
  l.current.commutes l'.current = true ∨ ∀ x y : ℤ,
    ¬ (l.lay.geo.Visible scr (x - l.lay.geo.x) (y - l.lay.geo.y) ∧
      l'.lay.geo.Visible scr (x - l'.lay.geo.x) (y - l'.lay.geo.y))

omit [DecidableEq V] in
/-- Where a layer is not visible its sheet is bare. -/
theorem DrawnLayer.sheet_bare (cpu : Cpu) {scr : Geometry} (m : ℤ → CHAR) {l : DrawnLayer V}
    {p : Spot}
    (h : ¬ l.lay.geo.Visible scr (l.lay.geo.under p).1 (l.lay.geo.under p).2.1) :
    (l.sheet cpu scr m).Bare p := fun _ => if_neg h

omit [DecidableEq V] in
/-- The sheets of such layers commute. -/
theorem DrawnLayer.Exchange.commute {scr : Geometry} {l l' : DrawnLayer V} (h : l.Exchange scr l')
    (m : ℤ → CHAR) : (l.sheet cpu scr m).Commute (l'.sheet cpu scr m) := by
  intro p c
  by_cases hvis : l.lay.geo.Visible scr (l.lay.geo.under p).1 (l.lay.geo.under p).2.1
  · by_cases hvis' : l'.lay.geo.Visible scr (l'.lay.geo.under p).1 (l'.lay.geo.under p).2.1
    · rcases h with hcomm | hdisj
      · -- the bytes are in the same channel
        have hi : (4 * (p.1 - max l.lay.geo.x 0) + (p.2.2.val : ℤ)) % 4 =
            (4 * (p.1 - max l'.lay.geo.x 0) + p.2.2.val) % 4 := by omega
        simp only [sheet, if_pos hvis, if_pos hvis']
        exact LinearBlit.blend_comm cpu _ _ hcomm hi _ _ _ _ c
      · exact absurd ⟨hvis, hvis'⟩ (hdisj p.1 p.2.1)
    · have hbare := sheet_bare cpu m hvis'
      rw [hbare, hbare]
  · have hbare := sheet_bare cpu m hvis
    rw [hbare, hbare]

omit [DecidableEq V] in
/-- A layer with a blit that overwrites covers the bytes where it is visible. -/
theorem DrawnLayer.sheet_covers {scr : Geometry} {m : ℤ → CHAR} {l : DrawnLayer V} {p : Spot}
    (hover : l.current.overwrites l.number = true)
    (h : l.lay.geo.Visible scr (l.lay.geo.under p).1 (l.lay.geo.under p).2.1) :
    (l.sheet cpu scr m).Covers p := by
  intro c c'
  rw [sheet, sheet, if_pos h, if_pos h]
  exact LinearBlit.blend_overwrites cpu _ hover _ _ _ c c'

/-- The layers after a pass. -/
def DrawnLayer.after (ls : List (DrawnLayer V))
    (pass : List (SoftLayer LinearBlit V × List RowCall)) : List (DrawnLayer V) :=
  (ls.zip pass).map fun p => { p.1 with toSoftLayer := p.2.1 }

omit [DecidableEq V] in
/-- The state after a pass. -/
theorem DrawnLayer.after_layers {scr : Geometry}
    {pass : List (SoftLayer LinearBlit V × List RowCall)}
    (h : List.Forall₂ (DrawnLayer.Blitted cpu surface scr) ls pass) :
    (DrawnLayer.after ls pass).map (fun l => l.toSoftLayer) = pass.map Prod.fst := by
  induction h with
  | nil => rfl
  | cons _ _ ih => exact congrArg _ ih

omit [DecidableEq V] in
/-- A layer after the pass is where it was, and has the same sheet. -/
theorem DrawnLayer.Blitted.same {scr : Geometry} {l : DrawnLayer V}
    {r : SoftLayer LinearBlit V × List RowCall} (h : l.Blitted cpu surface scr r) :
    (l.Drawable cpu surface scr →
        DrawnLayer.Drawable cpu surface scr { l with toSoftLayer := r.1 }) ∧
      ∀ m, DrawnLayer.sheet cpu scr m { l with toSoftLayer := r.1 } = l.sheet cpu scr m := by
  refine ⟨fun hl hs => ?_, fun m => ?_⟩
  · obtain ⟨hin, hplaced⟩ := hl (h.shown.symm.trans hs)
    rw [← h.geo] at hin
    refine ⟨hin, ?_, ?_, ?_⟩
    · simpa only [h.geo] using hplaced.apart
    · simpa only [h.geo] using hplaced.rows
    · simpa only [h.geo, h.current] using hplaced.right
  · funext p below
    simp only [sheet, h.geo, h.current]

omit [DecidableEq V] in
/-- The layers after the pass can be drawn again, as the same sheets. -/
theorem DrawnLayer.after_same {scr : Geometry}
    {pass : List (SoftLayer LinearBlit V × List RowCall)}
    (h : List.Forall₂ (DrawnLayer.Blitted cpu surface scr) ls pass)
    (hl : ∀ l ∈ ls, l.Drawable cpu surface scr) :
    (∀ l ∈ DrawnLayer.after ls pass, l.Drawable cpu surface scr) ∧
      ∀ m, DrawnLayer.sheets cpu scr m (DrawnLayer.after ls pass) =
        DrawnLayer.sheets cpu scr m ls := by
  induction h with
  | nil => exact ⟨fun l hl => absurd hl List.not_mem_nil, fun _ => rfl⟩
  | @cons l r ls pass hlr _ ih =>
      obtain ⟨hl0, hls⟩ := List.forall_mem_cons.mp hl
      obtain ⟨hdraw, hsheets⟩ := ih hls
      obtain ⟨hsame, hsheet⟩ := hlr.same
      refine ⟨List.forall_mem_cons.mpr ⟨hsame hl0, hdraw⟩, fun m => ?_⟩
      have hshown : ({ l with toSoftLayer := r.1 } : DrawnLayer V).shown = l.shown := hlr.shown
      have hcons (l : DrawnLayer V) (ls : List (DrawnLayer V)) :
          sheets cpu scr m (l :: ls) =
            if l.shown then l.sheet cpu scr m :: sheets cpu scr m ls else sheets cpu scr m ls := by
        simp only [sheets, List.filter_cons]
        split <;> rfl
      have hafter : after (l :: ls) (r :: pass) = { l with toSoftLayer := r.1 } :: after ls pass :=
        rfl
      rw [hafter, hcons, hcons, hsheets, hshown, hsheet]

/-- **The next frame** of the same pictures is the same composite over the first frame. -/
theorem next_frame (hr : Reachable (softSystem LinearBlit V) (DrawnLayer.state scr ls))
    (hl : ∀ l ∈ ls, l.Drawable cpu surface scr.geo) :
    ∃ pass pass', ViewPort.blit_layers scr.toViewPort (DrawnLayer.state scr ls).layers = some pass ∧
      ViewPort.blit_layers scr.toViewPort (pass.map Prod.fst) = some pass' ∧
      ∀ m : ℤ → CHAR,
        (∀ p : Spot, p.On scr.geo → DrawnLayer.drawAll cpu surface (DrawnLayer.after ls pass) pass'
            (DrawnLayer.drawAll cpu surface ls pass m) (p.at surface scr.geo.w) =
          composite (DrawnLayer.sheets cpu scr.geo m ls)
            (composite (DrawnLayer.sheets cpu scr.geo m ls) (onScreen surface scr.geo.w m)) p) ∧
        ∀ a, ¬ InPicture scr.geo surface a →
          DrawnLayer.drawAll cpu surface (DrawnLayer.after ls pass) pass'
            (DrawnLayer.drawAll cpu surface ls pass m) a = m a := by
  obtain ⟨pass, hpass, hall, hdrawn⟩ := pass_composite_of hr hl
  obtain ⟨hl', hsheets⟩ := DrawnLayer.after_same hall hl
  have hstate : DrawnLayer.state scr (DrawnLayer.after ls pass) = ⟨scr, pass.map Prod.fst⟩ := by
    rw [DrawnLayer.state, DrawnLayer.after_layers hall]
  have hstep : SoftOp.exec (DrawnLayer.state scr ls) .blit_layers =
      some (DrawnLayer.state scr (DrawnLayer.after ls pass)) := by
    rw [hstate]
    exact congrArg (Option.map _) hpass
  have hr' := hr.step (a := SoftOp.blit_layers) hstep
  obtain ⟨pass', hpass', -, hdrawn'⟩ := pass_composite_of hr' hl'
  rw [hstate] at hpass'
  refine ⟨pass, pass', hpass, hpass', fun m => ?_⟩
  obtain ⟨hseen, hframe⟩ := hdrawn m
  obtain ⟨hseen', hframe'⟩ := hdrawn' (DrawnLayer.drawAll cpu surface ls pass m)
  refine ⟨fun p hp => ?_, fun a ha => (hframe' a ha).trans (hframe a ha)⟩
  rw [hseen' p hp, hsheets, DrawnLayer.sheets_congr hl hframe]
  exact composite_congr (hseen p hp)

end Frames

end FreeJ
