import Mathlib.Data.List.Nodup
import Mathlib.Data.List.Flatten
import Mathlib.Tactic.Ring
import FreeJ.Blitter

/-!
# The Software Blit

`SoftScreen::blit` of `soft_screen.cpp` calls the blit function of a layer once for each
row, with a pointer into the pixels of the layer and one into the pixels of the screen. The
pointers are indices into the two buffers, in pixels, and the result of the loop is the list
of the calls it makes; a blit function goes through the pixels of its two rows in pairs.

## Main results

* `pixels_rowLoop`: the pairs that the loop goes through, row by row.
* `blit_visible`: after the crop they are exactly the pixels of the layer that are inside
  the screen with their places on it, each once and all inside the two buffers.
-/

namespace FreeJ

/-- A call of the blit function: from which pixel of the layer, to which pixel of the
screen, and how many bytes. -/
structure RowCall where
  play : ℤ
  pscr : ℤ
  bytes : ℤ
  deriving DecidableEq, Repr

/-- The pairs of pixels, of the layer and of the screen, that a blit function combines: 4
bytes each, from the two it is given on. -/
def RowCall.pixels (call : RowCall) : List (ℤ × ℤ) :=
  (List.range (call.bytes / 4).toNat).map fun k : ℕ => (call.play + k, call.pscr + k)

/-- `SoftScreen::blit`, the loop that iterates the blit on each horizontal line. -/
def SoftScreen.rowLoop (b : Blit) : ℕ → ℤ → ℤ → List RowCall
  | 0, _, _ => []
  | c + 1, play, pscr =>
    ⟨play, pscr, b.lay_bytepitch⟩ ::
      -- strides down to the next line
      SoftScreen.rowLoop b c (play + (b.lay_stride + b.lay_pitch))
        (pscr + (b.scr_stride + b.lay_pitch))

variable {V : Type*}

/-- `SoftScreen::blit`: the layer afterwards and the calls of its blit function; `none` when
a null pointer is followed. The counter `c` is an `int16_t`. -/
def SoftScreen.blit [DecidableEq V] (screen : ViewPort V) (src : Layer V) :
    Option (Layer V × List RowCall) :=
  if src.screen ≠ screen.this then some (src, [])
  else
    let src := if src.need_crop then Blitter.crop src screen else src
    match src.current_blit with
    | none => none
    | some b => some (src,
        SoftScreen.rowLoop b (int16 b.lay_height).toNat b.lay_offset b.scr_offset)

/-! ### The loop -/

/-- **The pairs of the loop.** Row after row, each pointer moves on by a whole row of its
buffer. -/
theorem pixels_rowLoop {b : Blit} {w W : ℤ} (hlay : b.lay_stride + b.lay_pitch = w)
    (hscr : b.scr_stride + b.lay_pitch = W) (n : ℕ) (play pscr : ℤ) :
    (SoftScreen.rowLoop b n play pscr).flatMap RowCall.pixels =
      (List.range n).flatMap fun j : ℕ => (List.range (b.lay_bytepitch / 4).toNat).map
        fun k : ℕ => (play + j * w + k, pscr + j * W + k) := by
  induction n generalizing play pscr with
  | zero => rfl
  | succ n ih =>
      rw [SoftScreen.rowLoop, List.flatMap_cons, ih, hlay, hscr, List.range_succ_eq_map,
        List.flatMap_cons, List.flatMap_map]
      congr 1
      · simp [RowCall.pixels]
      · refine List.flatMap_congr fun j _ => List.map_congr_left fun k _ => ?_
        push_cast
        congr 1 <;> ring

/-! ### What is blitted -/

/-- Pixel `i,j` of the layer is inside the screen. -/
def Geometry.Visible (geo scr : Geometry) (i j : ℤ) : Prop :=
  (0 ≤ i ∧ i < geo.w) ∧ (0 ≤ j ∧ j < geo.h) ∧ (0 ≤ geo.x + i ∧ geo.x + i < scr.w) ∧
    0 ≤ geo.y + j ∧ geo.y + j < scr.h

/-- The place of a pixel in a buffer of rows of `w` pixels tells its row and its column. -/
theorem index_inj {w j j' k k' : ℤ} (hk : 0 ≤ k ∧ k < w) (hk' : 0 ≤ k' ∧ k' < w)
    (h : j * w + k = j' * w + k') : j = j' ∧ k = k' := by
  have hw : w ≠ 0 := by omega
  have hdiv := congrArg (· / w) h
  simp only [Int.mul_comm _ w, Int.mul_add_ediv_left _ _ hw, Int.ediv_eq_zero_of_lt hk.1 hk.2,
    Int.ediv_eq_zero_of_lt hk'.1 hk'.2, add_zero] at hdiv
  subst hdiv
  exact ⟨rfl, by omega⟩

/-- The place of a pixel is inside a buffer of `h` rows of `w` pixels. -/
theorem index_range {w h i j : ℤ} (hi : 0 ≤ i ∧ i < w) (hj : 0 ≤ j ∧ j < h) :
    0 ≤ j * w + i ∧ j * w + i < w * h := by
  have h0 : 0 ≤ j * w := Int.mul_nonneg hj.1 (by omega)
  have h1 : (j + 1) * w ≤ h * w := Int.mul_le_mul_of_nonneg_right (by omega) (by omega)
  have h2 : (j + 1) * w = j * w + w := by ring
  rw [Int.mul_comm w h]
  omega

variable {b : Blit} {geo scr : Geometry}

/-- **The blitted pairs.** A loop over the rows of a blit that describes the intersection of
layer and screen goes through the pairs of that intersection. -/
theorem Blit.Shows.mem_pixels (hb : b.Shows geo scr) {s d : ℤ} :
    (s, d) ∈ (SoftScreen.rowLoop b b.lay_height.toNat b.lay_offset b.scr_offset).flatMap
        RowCall.pixels ↔
      ∃ i j, geo.Visible scr i j ∧ s = j * geo.w + i ∧
        d = (geo.y + j) * scr.w + (geo.x + i) := by
  have hpitch := hb.pitch
  have hheight := hb.height
  rw [pixels_rowLoop hb.lay_row hb.scr_row, hb.bytepitch, hb.lay_offset, hb.scr_offset]
  simp only [List.mem_flatMap, List.mem_map, List.mem_range, Prod.mk.injEq]
  constructor
  · rintro ⟨j, hj, k, hk, rfl, rfl⟩
    refine ⟨max (-geo.x) 0 + k, max (-geo.y) 0 + j, ?_, by ring, ?_⟩
    · simp only [Geometry.Visible]
      omega
    · have hx : geo.x + max (-geo.x) 0 = max geo.x 0 := by omega
      have hy : geo.y + max (-geo.y) 0 = max geo.y 0 := by omega
      rw [← hx, ← hy]
      ring
  · rintro ⟨i, j, ⟨hi, hj, hxi, hyj⟩, rfl, rfl⟩
    have hjn : ((j - max (-geo.y) 0).toNat : ℤ) = j - max (-geo.y) 0 := by omega
    have hin : ((i - max (-geo.x) 0).toNat : ℤ) = i - max (-geo.x) 0 := by omega
    refine ⟨(j - max (-geo.y) 0).toNat, by omega, (i - max (-geo.x) 0).toNat, by omega, ?_, ?_⟩
    · rw [hjn, hin]
      ring
    · have hx : max geo.x 0 = geo.x + max (-geo.x) 0 := by omega
      have hy : max geo.y 0 = geo.y + max (-geo.y) 0 := by omega
      rw [hjn, hin, hx, hy]
      ring

/-- The pair of a pixel of the layer and a pixel of the screen is inside the two buffers. -/
def Inside (geo scr : Geometry) (p : ℤ × ℤ) : Prop :=
  (0 ≤ p.1 ∧ p.1 < geo.w * geo.h) ∧ 0 ≤ p.2 ∧ p.2 < scr.w * scr.h

/-- **No pair is outside the buffers**, however many of the rows the loop gets to. -/
theorem Blit.Shows.inside (hb : b.Shows geo scr) {n : ℕ} (hn : n ≤ b.lay_height.toNat)
    {p : ℤ × ℤ} (hp : p ∈ (SoftScreen.rowLoop b n b.lay_offset b.scr_offset).flatMap
      RowCall.pixels) : Inside geo scr p := by
  have hall : p ∈ (SoftScreen.rowLoop b b.lay_height.toNat b.lay_offset b.scr_offset).flatMap
      RowCall.pixels := by
    rw [pixels_rowLoop hb.lay_row hb.scr_row, List.mem_flatMap] at hp ⊢
    obtain ⟨j, hj, hp⟩ := hp
    exact ⟨j, List.mem_range.mpr ((List.mem_range.mp hj).trans_le hn), hp⟩
  obtain ⟨i, j, ⟨hi, hj, hxi, hyj⟩, hs, hd⟩ := hb.mem_pixels.mp hall
  rw [Inside, hs, hd]
  exact ⟨index_range hi hj, index_range hxi hyj⟩

/-- The rows that an `int16_t` counts, of a layer that is not out of the screen. -/
theorem Blit.Shows.inside_blit (hb : b.Shows geo scr) (hin : ¬ geo.OutOf scr) {p : ℤ × ℤ}
    (hp : p ∈ (SoftScreen.rowLoop b (int16 b.lay_height).toNat b.lay_offset
      b.scr_offset).flatMap RowCall.pixels) : Inside geo scr p := by
  refine hb.inside (Int.toNat_le_toNat (int16_le ?_)) hp
  have hy := geo.y_range
  have hr := geo.h_range
  have hs := scr.h_range
  rw [hb.height]
  simp only [Geometry.OutOf] at hin
  omega

/-- No pair is gone through twice. -/
theorem Blit.Shows.nodup_pixels (hb : b.Shows geo scr) :
    ((SoftScreen.rowLoop b b.lay_height.toNat b.lay_offset b.scr_offset).flatMap
      RowCall.pixels).Nodup := by
  have hpitch := hb.pitch
  have hw := geo.w_range
  rw [pixels_rowLoop hb.lay_row hb.scr_row, hb.bytepitch, List.nodup_flatMap]
  refine ⟨fun j _ => List.nodup_range.map fun k k' hkk => ?_,
    List.nodup_range.imp fun {j j'} hjj => ?_⟩
  · have hs := (Prod.mk.inj hkk).1
    omega
  · rintro ⟨s, d⟩ hs hs'
    obtain ⟨k, hk, hk2⟩ := List.mem_map.mp hs
    obtain ⟨k', hk', hk2'⟩ := List.mem_map.mp hs'
    rw [List.mem_range] at hk hk'
    have hsame := (Prod.mk.inj (hk2.trans hk2'.symm)).1
    have hrow : (j : ℤ) * geo.w + k = j' * geo.w + k' := by omega
    have hjj' := (index_inj (by omega) (by omega) hrow).1
    exact hjj (by exact_mod_cast hjj')

section Blit

variable [DecidableEq V]

/-- `blit` of a layer of this screen that needs a crop. -/
theorem SoftScreen.blit_eq {screen : ViewPort V} {src : Layer V}
    (hscreen : src.screen = screen.this) (hneed : src.need_crop = true)
    (hb : (Blitter.crop src screen).current_blit = some b) :
    SoftScreen.blit screen src = some (Blitter.crop src screen,
      SoftScreen.rowLoop b (int16 b.lay_height).toNat b.lay_offset b.scr_offset) := by
  simp only [SoftScreen.blit, hscreen, hneed, ne_eq, not_true, if_false, if_true, hb]

/-- **Crop and blit copy exactly what is visible.** For a linear or past blit of a layer of
this screen that needs a crop, when the crop does not find it out of the screen and the rows
left of it can be counted by an `int16_t`: this frame, and the next one without a further
crop, go through exactly the pairs of a pixel `i,j` of the layer and the pixel `x+i,y+j` of
the screen for which the latter exists, each once, and inside the two buffers. -/
theorem blit_visible {screen : ViewPort V} {src : Layer V} {b : Blit}
    (hscreen : src.screen = screen.this) (hneed : src.need_crop = true)
    (hblit : src.current_blit = some b) (htype : b.type = .LINEAR ∨ b.type = .PAST)
    (hin : (Blitter.crop src screen).hidden = false)
    (hrows : min ((Blitter.cropGeo src).y + (Blitter.cropGeo src).h) screen.geo.h
      - max (Blitter.cropGeo src).y 0 < 2 ^ 15) :
    ∃ calls, SoftScreen.blit screen src = some (Blitter.crop src screen, calls) ∧
      SoftScreen.blit screen (Blitter.crop src screen) =
        some (Blitter.crop src screen, calls) ∧
      (calls.flatMap RowCall.pixels).Nodup ∧
      (∀ s d, (s, d) ∈ calls.flatMap RowCall.pixels ↔
        ∃ i j, (Blitter.cropGeo src).Visible screen.geo i j ∧
          s = j * (Blitter.cropGeo src).w + i ∧
          d = ((Blitter.cropGeo src).y + j) * screen.geo.w + ((Blitter.cropGeo src).x + i)) ∧
      ∀ s d, (s, d) ∈ calls.flatMap RowCall.pixels →
        (0 ≤ s ∧ s < (Blitter.cropGeo src).w * (Blitter.cropGeo src).h) ∧
          0 ≤ d ∧ d < screen.geo.w * screen.geo.h := by
  have hout : ¬ (Blitter.cropGeo src).OutOf screen.geo := by
    rw [← Blitter.hidden_crop hblit htype, hin]
    decide
  obtain ⟨b', hb', hshows, hdone⟩ := Blitter.crop_shows hblit htype hout
  have hheight : int16 b'.lay_height = b'.lay_height := by
    have hh := hshows.height
    have hy := (Blitter.cropGeo src).y_range
    have hr := (Blitter.cropGeo src).h_range
    have hs := screen.geo.h_range
    simp only [Geometry.OutOf] at hout
    exact int16_eq (by omega) (by omega)
  refine ⟨SoftScreen.rowLoop b' b'.lay_height.toNat b'.lay_offset b'.scr_offset,
    ?_, ?_, hshows.nodup_pixels, fun s d => hshows.mem_pixels, fun s d hsd => ?_⟩
  · rw [SoftScreen.blit_eq hscreen hneed hb', hheight]
  · simp [SoftScreen.blit, (Blitter.crop_sameFrame src screen).screen, hscreen, hdone, hb', hheight]
  · exact hshows.inside (Nat.le_refl _) hsd

/-- A layer of 2 by 3 pixels whose upper left pixel sticks out of a screen of 2 by 2: its
pixel `1,1` goes to pixel `0,0`. -/
theorem blit_visible_corner :
    let geo : Geometry := ⟨-1, -1, 2, 3, by decide, by decide, by decide, by decide⟩
    let screen : ViewPort Unit := ⟨(), ⟨0, 0, 2, 2, by decide, by decide, by decide, by decide⟩⟩
    let blit : Blit := ⟨.LINEAR, 0, 0, 0, 0, 0, 0, 0, 0, 0, 0, 0, 0, 0, ⟨0, 0, 0, 0⟩⟩
    let src : Layer Unit := ⟨(), geo, geo, false, false, false, true, some blit⟩
    ∃ calls, SoftScreen.blit screen src = some (Blitter.crop src screen, calls) ∧
      (3, 0) ∈ calls.flatMap RowCall.pixels := by
  intro geo screen blit src
  obtain ⟨calls, hcalls, -, -, hmem, -⟩ := @blit_visible Unit _ screen src blit
    rfl rfl rfl (Or.inl rfl) (by decide) (by decide)
  refine ⟨calls, hcalls, (hmem 3 0).mpr ⟨1, 1, ?_, rfl, rfl⟩⟩
  simp only [Geometry.Visible]
  decide

end Blit

end FreeJ
